import Cadence.Proofs.Bits.Steps
import Cadence.Proofs.ParameterSets.Ranges
import Cadence.SkipFrame

/-!
The syntax elements of a skipped picture. Which elements the header has depends on the parameter sets
alone, and a reader that knows them finds each with its value and behind the last one less than a byte
of zeros (`SkipFrame.readAll_header`).
-/

namespace Cadence

open BitReader

namespace Element

/-- The run of bits is read as these elements, wherever it stands. -/
def ReadAs (elements : List (Kind × Value)) (word : List Bool) : Prop :=
  Reads (readAll (elements.map Prod.fst)) word (elements.map Prod.snd)

/-! An element is put down with the value that is read. -/

abbrev ofField (width value : Nat) : Kind × Value := (.field width, .number value)

abbrev ofFlag (bit : Bool) : Kind × Value := (.flag, .flag bit)

abbrev ofUe (value : Nat) : Kind × Value := (.ue, .number value)

abbrev ofSe (value : Int) : Kind × Value := (.se, .integer value)

namespace ReadAs

variable {elements others : List (Kind × Value)} {word tail : List Bool}

theorem nil : ReadAs [] [] :=
  .pure []

theorem cons {kind : Kind} {value : Value} (h : Reads kind.read word value)
    (hRest : ReadAs elements tail) : ReadAs ((kind, value) :: elements) (word ++ tail) := by
  rw [ReadAs, readAll, List.map_cons, List.mapM_cons, List.map_cons]
  exact h.bind (hRest.map (value :: ·))

theorem append (h : ReadAs elements word) (hRest : ReadAs others tail) :
    ReadAs (elements ++ others) (word ++ tail) := by
  rw [ReadAs, readAll, List.map_append, List.map_append, List.mapM_append]
  exact h.bind (hRest.map (elements.map Prod.snd ++ ·))

theorem single {kind : Kind} {value : Value} (h : Reads kind.read word value) :
    ReadAs [(kind, value)] word := by
  rw [← List.append_nil word]
  exact cons h nil

theorem field {width value : Nat} (h : width ≤ 32) :
    ReadAs [ofField width (value % 2 ^ width)] (Bits.ofNat width value) :=
  single ((Reads.readNat h value).map Value.number)

theorem flag (bit : Bool) : ReadAs [ofFlag bit] [bit] :=
  single ((Reads.readBit bit).map Value.flag)

theorem ue {value : Nat} (h : value + 1 < 2 ^ 32) : ReadAs [ofUe value] (Bits.ue value) :=
  single ((Reads.readUe h).map Value.number)

theorem se {value : Int} (h : -2 ^ 31 < value ∧ value < 2 ^ 31) :
    ReadAs [ofSe value] (Bits.se (Int32.ofInt value)) :=
  single ((Reads.readInt h).map Value.integer)

/-- Elements that are there in some streams only. -/
theorem onlyIf {condition : Prop} [Decidable condition] (h : ReadAs elements word) :
    ReadAs (if condition then elements else []) (if condition then word else []) := by
  split
  · exact h
  · exact nil

theorem repeated (h : ReadAs elements word) (count : Nat) :
    ReadAs (List.replicate count elements).flatten (List.replicate count word).flatten := by
  induction count with
  | zero => exact nil
  | succ count ih => exact h.append ih

end ReadAs

end Element

namespace SkipFrame

open Element (Kind Value ReadAs ofField ofFlag ofUe ofSe)

/-- The weights of the references: two denominators and two flags for each reference, or one of either
in a monochrome stream. -/
def weightElements (s : SkipFrame) : List (Kind × Value) :=
  [ofUe 0] ++ (if s.sps.chromaFormat ≠ 0 then [ofUe 0] else [])
    ++ (List.replicate s.pps.defaultRefs0
      ([ofFlag false] ++ if s.sps.chromaFormat ≠ 0 then [ofFlag false] else [])).flatten

/-- Header byte and slice header as they are read, and the run of skipped macroblocks behind them in a
stream that is not arithmetically coded. -/
def headerElements (s : SkipFrame) (frameNum : Nat) : List (Kind × Value) :=
  [ofField 8 0x01, ofUe 0, ofUe 5, ofUe 0]
    ++ [ofField s.sps.log2MaxFrameNum (frameNum % 2 ^ s.sps.log2MaxFrameNum)]
    ++ (if s.pps.redundantPicCount then [ofUe 0] else [])
    ++ [ofFlag false, ofFlag false]
    ++ (if s.pps.weightedPred then s.weightElements else [])
    ++ (if s.pps.cabac then [ofUe 0] else [])
    ++ [ofSe (11 - s.pps.initialQp)]
    ++ (if s.pps.deblockingControl then [ofUe 0, ofSe 0, ofSe 0] else [])
    ++ (if s.pps.cabac then [] else [ofUe (s.sps.mbWidth * s.sps.mbHeight)])

variable {s : SkipFrame}

/-- The weights are read back element by element. -/
theorem readAs_weights (s : SkipFrame) : ReadAs s.weightElements s.weights := by
  have hWord : ReadAs [ofUe 0] (Bits.ue 0) := .ue (by decide)
  have hFlag : ReadAs [ofFlag false] [false] := .flag false
  have hBits : s.weights = Bits.ue 0 ++ (if s.sps.chromaFormat ≠ 0 then Bits.ue 0 else [])
      ++ (List.replicate s.pps.defaultRefs0
        ([false] ++ if s.sps.chromaFormat ≠ 0 then [false] else [])).flatten := by
    rw [weights]
    split
    case isTrue => rw [← List.flatten_replicate_replicate]; rfl
    case isFalse => rw [← List.flatten_replicate_replicate]; rfl
  rw [hBits]
  exact (hWord.append hWord.onlyIf).append ((hFlag.append hFlag.onlyIf).repeated _)

theorem readAs_run (h : s.sps.InRange) :
    ReadAs (if s.pps.cabac then [] else [ofUe (s.sps.mbWidth * s.sps.mbHeight)]) s.runBits := by
  have hHeight : s.sps.mbHeight ≤ 2048 := by
    have := h.height
    rw [Sps.mbHeight]
    split <;> omega
  have hMbs : s.sps.mbWidth * s.sps.mbHeight ≤ 1024 * 2048 := Nat.mul_le_mul h.width hHeight
  rw [runBits]
  split
  · exact .nil
  · exact .ue (by omega)

/-- The header is read back element by element, with its weights and the run of skipped blocks. -/
theorem readAs_header (hSps : s.sps.InRange) (hPps : s.pps.InRange) (frameNum : Nat) :
    ReadAs (s.headerElements frameNum) (s.headerBits frameNum ++ s.runBits) := by
  have hWidth : s.sps.log2MaxFrameNum ≤ 32 := hSps.numberWidth.2.trans (by decide)
  obtain ⟨hQpFrom, hQpTill⟩ := hPps.initialQp
  have hWord : ReadAs [ofUe 0] (Bits.ue 0) := .ue (by decide)
  have hSigned : ReadAs [ofSe 0] (Bits.se 0) := .se (by decide)
  have hDelta : ReadAs [ofSe (11 - s.pps.initialQp)]
      (Bits.se (Int32.ofInt (qp - s.pps.initialQp))) :=
    .se ⟨by omega, by omega⟩
  have hLead : ReadAs [ofField 8 0x01, ofUe 0, ofUe 5, ofUe 0]
      (Bits.ofNat 8 headerByte ++ Bits.ue 0 ++ Bits.ue sliceType ++ Bits.ue 0) :=
    (((ReadAs.field (by decide)).append hWord).append (.ue (by decide))).append hWord
  have hFlags : ReadAs [ofFlag false, ofFlag false] [false, false] :=
    (ReadAs.flag false).append (.flag false)
  have hFilter : ReadAs [ofUe 0, ofSe 0, ofSe 0]
      (Bits.ue 0 ++ Bits.se 0 ++ Bits.se 0) :=
    (hWord.append hSigned).append hSigned
  rw [headerElements, headerBits]
  refine .append (.append (.append ?_ hDelta) hFilter.onlyIf) (readAs_run hSps)
  refine .append (.append (.append ?_ hFlags) (readAs_weights s).onlyIf) hWord.onlyIf
  exact (hLead.append (.field hWidth)).append hWord.onlyIf

/-- The header of a skipped picture is read back element by element, whatever the parameter sets, and what
is left behind the elements are fewer than eight bits, none of them set. -/
theorem readAll_header (hSps : s.sps.InRange) (hPps : s.pps.InRange) (frameNum : Nat) :
    ∃ r, Element.readAll ((s.headerElements frameNum).map Prod.fst) (ofBytes (s.header frameNum))
        = .ok ((s.headerElements frameNum).map Prod.snd) r ∧
      r.left < 8 ∧ r.rest = List.replicate r.left false := by
  have hBits := (BitWriter.empty.writeRun (s.headerBits frameNum ++ s.runBits)).ofBytes_finish
  rw [BitWriter.bits_writeRun, BitWriter.bits_empty, List.nil_append, ← header, ← rest_ofBytes] at hBits
  have hBehind := rest_advance hBits
  have hLeft := congrArg List.length hBehind
  rw [length_rest, List.length_replicate] at hLeft
  refine ⟨_, readAs_header hSps hPps frameNum _ _ hBits, ?_, ?_⟩
  · rw [hLeft]
    exact BitWriter.padding_lt _
  · rw [hBehind, hLeft]

/-- A stream with weighted prediction from two references, in colour and in fields. -/
def sampleWeighted : SkipFrame where
  sps := {
    profile := 77, level := 30, id := 0, chromaFormat := 1, log2MaxFrameNum := 5, pocType := 2,
    maxRefFrames := 2, frameNumGapsAllowed := false, widthInMbs := 3, heightInMapUnits := 2,
    frameMbsOnly := false, width := 48, height := 64 }
  pps := {
    id := 0, spsId := 0, cabac := false, picOrderPresent := false, sliceGroups := 1, sliceGroupMap := 0,
    defaultRefs0 := 2, defaultRefs1 := 1, weightedPred := true, weightedBipred := 0, initialQp := 26,
    chromaQpOffset := 0, deblockingControl := true, constrainedIntraPred := false,
    redundantPicCount := true }
  framing := .annexB
  sliceData := []

theorem readAll_header_sampleWeighted :
    sampleWeighted.sps.InRange ∧ sampleWeighted.pps.InRange ∧
    ∃ r, Element.readAll [.field 8, .ue, .ue, .ue, .field 5, .ue, .flag, .flag, .ue, .ue, .flag, .flag,
          .flag, .flag, .se, .ue, .se, .se, .ue] (ofBytes (sampleWeighted.header 37))
        = .ok [.number 1, .number 0, .number 5, .number 0, .number 5, .number 0, .flag false, .flag false,
          .number 0, .number 0, .flag false, .flag false, .flag false, .flag false, .integer (-15),
          .number 0, .integer 0, .integer 0, .number 12] r ∧
      r.left < 8 ∧ r.rest = List.replicate r.left false := by
  have hSps : sampleWeighted.sps.InRange := ⟨by decide, by decide, by decide⟩
  have hPps : sampleWeighted.pps.InRange := ⟨by decide, by decide⟩
  exact ⟨hSps, hPps, readAll_header hSps hPps 37⟩

end SkipFrame

end Cadence
