import Cadence.Bits.Written
import Cadence.Proofs.Bits.CodeWords
import Cadence.Proofs.ParameterSets.Ranges
import Cadence.SkipFrame

/-!
How long a skipped picture is. Its length is the same for all frame numbers, so a stream whose skipped
pictures fit their length field once fits them always (`exists_data_iff`). Without a template it is a
matter of a few bytes (`length_header_le`).
-/

namespace Cadence

namespace BitWriter

theorem length_finish (w : BitWriter) : w.finish.length = (w.bits.length + 7) / 8 := by
  have hLength := congrArg List.length w.ofBytes_finish
  rw [Bits.length_ofBytes, List.length_append, List.length_replicate] at hLength
  have hPadding := w.padding_lt
  omega

end BitWriter

namespace SkipFrame

variable {s : SkipFrame}

theorem length_header_eq (s : SkipFrame) (frameNum : Nat) :
    (s.header frameNum).length = ((s.headerBits frameNum ++ s.runBits).length + 7) / 8 := by
  rw [header, BitWriter.length_finish, BitWriter.bits_writeRun, BitWriter.bits_empty,
    List.nil_append]

/-- All skipped pictures of a stream have headers of one length. -/
theorem length_header (s : SkipFrame) (frameNum : Nat) :
    (s.header frameNum).length = (s.header 0).length := by
  simp only [length_header_eq, headerBits, List.length_append, Bits.length_ofNat]

/-- The code of the difference between the two quantisers. -/
def deltaCode (s : SkipFrame) : Nat :=
  (Bits.seCode (Int32.ofInt (qp - s.pps.initialQp))).toNat

/-- There are few quantisers, so what holds of them can be computed. -/
theorem exists_initialQp (h : s.pps.InRange) : ∃ initial : Fin 52, s.pps.initialQp = initial.val := by
  obtain ⟨hFrom, hTill⟩ := h.initialQp
  refine ⟨⟨s.pps.initialQp.toNat, by omega⟩, ?_⟩
  dsimp only
  omega

/-- The number of zeros that the code of the quantiser begins with. -/
def deltaZeros (s : SkipFrame) : Nat :=
  (s.deltaCode + 1).log2

/-- The number of zeros that the code of the number of macroblocks begins with. -/
def runZeros (s : SkipFrame) : Nat :=
  (s.sps.mbWidth * s.sps.mbHeight + 1).log2

theorem deltaCode_le (h : s.pps.InRange) : s.deltaCode ≤ 80 := by
  have hAll : ∀ initial : Fin 52, (Bits.seCode (Int32.ofInt (qp - initial.val))).toNat ≤ 80 := by
    decide +kernel
  obtain ⟨initial, hInitial⟩ := exists_initialQp h
  rw [deltaCode, hInitial]
  exact hAll initial

theorem length_weights_le (h : s.pps.InRange) : s.weights.length ≤ 66 := by
  have hRefs := h.refs.2
  rw [weights, Bits.ue_zero]
  split
  all_goals
    simp only [List.length_append, List.length_replicate, List.length_cons, List.length_nil]
    omega

theorem mbs_le (h : s.sps.InRange) (hFrames : s.sps.frameMbsOnly) :
    s.sps.mbWidth * s.sps.mbHeight ≤ 2 ^ 20 := by
  rw [Sps.mbWidth, Sps.mbHeight, if_pos hFrames, Nat.mul_one]
  calc
    s.sps.widthInMbs * s.sps.heightInMapUnits ≤ 1024 * 1024 := Nat.mul_le_mul h.width h.height
    _ = 2 ^ 20 := by decide

theorem deltaZeros_le (h : s.pps.InRange) : s.deltaZeros ≤ 6 := by
  have hCode := deltaCode_le h
  apply Bits.log2_succ_le
  omega

theorem runZeros_le (h : s.sps.InRange) (hFrames : s.sps.frameMbsOnly) : s.runZeros ≤ 20 := by
  have hMbs := mbs_le h hFrames
  apply Bits.log2_succ_le
  omega

theorem length_optional_le {word : List Bool} {size : Nat} (present : Bool)
    (h : word.length ≤ size) : (if present then word else []).length ≤ size := by
  cases present with
  | false => exact Nat.zero_le size
  | true => exact h

/-- No header is longer than 20 bytes. -/
theorem length_header_le (hPps : s.pps.InRange) (hSps : s.sps.InRange)
    (hFrames : s.sps.frameMbsOnly) (frameNum : Nat) : (s.header frameNum).length ≤ 20 := by
  have hWidth := hSps.numberWidth.2
  have hWeights := length_weights_le hPps
  have hDelta : (Bits.se (Int32.ofInt (qp - s.pps.initialQp))).length ≤ 13 := by
    have hZeros := deltaZeros_le hPps
    rw [Bits.se, ← deltaCode, Bits.length_ue, ← deltaZeros]
    omega
  have hRun : s.runBits.length ≤ 41 := by
    have hZeros := runZeros_le hSps hFrames
    rw [runBits]
    split
    · simp
    · rw [Bits.length_ue, ← runZeros]
      omega
  have hType : (Bits.ue sliceType).length = 5 := by decide
  have hBits : (s.headerBits frameNum ++ s.runBits).length ≤ 160 := by
    have hFlag : [true].length ≤ 1 := Nat.le_refl 1
    have hFilter : [true, true, true].length ≤ 3 := Nat.le_refl 3
    have hRedundant := length_optional_le s.pps.redundantPicCount hFlag
    have hWeighted := length_optional_le s.pps.weightedPred hWeights
    have hCoded := length_optional_le s.pps.cabac hFlag
    have hDeblocking := length_optional_le s.pps.deblockingControl hFilter
    simp only [headerBits, Bits.ue_zero, Bits.se_zero, List.length_append, Bits.length_ofNat, hType,
      List.length_cons, List.length_nil, List.cons_append, List.nil_append] at *
    omega
  rw [length_header_eq]
  omega

/-- The size of a skipped picture without its start code or length field. -/
def unitLength (s : SkipFrame) : Nat :=
  (s.header 0).length + s.sliceData.length

/-- A skipped picture is not longer than its length field can say. Start codes set no limit. -/
def Fits (s : SkipFrame) : Prop :=
  match s.framing with
  | .annexB => True
  | .lengthPrefixed size => s.unitLength < 2 ^ (8 * size.bytes)

instance (s : SkipFrame) : Decidable s.Fits := by
  unfold Fits
  split <;> infer_instance

theorem data_eq (s : SkipFrame) (frameNum : Nat) :
    s.data frameNum = (s.framing.header s.unitLength).map (· ++ (s.header frameNum ++ s.sliceData)) := by
  rw [data, List.length_append, length_header, ← unitLength]
  cases s.framing.header s.unitLength <;> rfl

/-- Where skipped pictures fit, each of them has its data. -/
theorem exists_data_of_fits (h : s.Fits) (frameNum : Nat) : ∃ data, s.data frameNum = .ok data := by
  unfold Fits at h
  split at h
  case h_1 hFraming =>
    rw [data_eq, hFraming]
    exact ⟨_, rfl⟩
  case h_2 size hFraming =>
    rw [data_eq, hFraming, Nal.Framing.header, Nat.one_shiftLeft, if_neg (Nat.not_le.mpr h)]
    exact ⟨_, rfl⟩

/-- Where they do not, none has. -/
theorem data_of_not_fits (h : ¬ s.Fits) (frameNum : Nat) :
    ∃ size, s.framing = .lengthPrefixed size ∧
      s.data frameNum = .error (.nalTooLong s.unitLength size.bytes) := by
  unfold Fits at h
  split at h
  case h_1 => exact absurd trivial h
  case h_2 size hFraming =>
    refine ⟨size, hFraming, ?_⟩
    rw [data_eq, hFraming, Nal.Framing.header, Nat.one_shiftLeft, if_pos (Nat.not_lt.mp h)]
    rfl

/-- Either all skipped pictures of a stream can be written, or none. -/
theorem exists_data_iff (s : SkipFrame) (frameNum : Nat) :
    (∃ data, s.data frameNum = .ok data) ↔ s.Fits := by
  refine ⟨fun ⟨data, hData⟩ => ?_, fun h => exists_data_of_fits h frameNum⟩
  by_contra hLong
  obtain ⟨_, _, hFault⟩ := data_of_not_fits hLong frameNum
  cases hFault.symm.trans hData

end SkipFrame

end Cadence
