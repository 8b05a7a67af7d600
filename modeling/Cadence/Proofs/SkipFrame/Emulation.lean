import Cadence.Proofs.Nal.ZeroRuns
import Cadence.Proofs.ParameterSets.Ranges
import Cadence.Proofs.SkipFrame.Reading
import Cadence.Proofs.SkipFrame.Size

/-!
No escape bytes are written into skipped pictures. Whether a start code arises in one depends on two
code words with zeros before them: that of the quantiser, behind the frame number or the flags for the
weights, and that of the number of macroblocks (`occurs_header_iff`).
-/

namespace Cadence

namespace Nal

/-- A code word brings its zeros, and its first one bit may end a start code. -/
theorem emulates_ue {value : Nat} (h : (value + 1).log2 ≤ 23) (zeros place : Nat) :
    emulates (Bits.ue value) zeros place
      = (23 ≤ zeros + (value + 1).log2 && (place + (value + 1).log2) % 8 == 7) := by
  have hDigits (place : Nat) :
      emulates (Bits.ofNat (value + 1).log2 (value + 1)) 0 place = false := by
    apply emulates_of_short
    rw [Bits.length_ofNat]
    omega
  rw [Bits.ue_eq, emulates_append, emulates_replicate, Bool.false_or, zerosAfter_replicate,
    List.length_replicate, emulates, hDigits, Bool.or_false]

theorem zerosAfter_ue (value zeros : Nat) :
    zerosAfter (Bits.ue value) zeros = zerosAfter (Bits.ofNat (value + 1).log2 (value + 1)) 0 := by
  rw [Bits.ue_eq, zerosAfter_append, zerosAfter_true]

end Nal

namespace SkipFrame

open Nal

variable {s : SkipFrame}

/-- The number of flags for the weights of the references, all of which are zero. -/
def weightFlags (s : SkipFrame) : Nat :=
  s.pps.defaultRefs0 * if s.sps.chromaFormat ≠ 0 then 2 else 1

/-- The header byte and the syntax elements up to the frame number. -/
def headBits : List Bool :=
  Bits.ofNat 8 headerByte ++ leadBits

/-- The frame number and the flags behind it. -/
def numberBits (s : SkipFrame) (frameNum : Nat) : List Bool :=
  Bits.ofNat s.sps.log2MaxFrameNum frameNum
    ++ (if s.pps.redundantPicCount then Bits.ue 0 else []) ++ [false, false]

/-- All that is written before the code of the quantiser. -/
def frontBits (s : SkipFrame) (frameNum : Nat) : List Bool :=
  headBits ++ s.numberBits frameNum ++ (if s.pps.weightedPred then s.weights else [])

/-- The number of bits before the first one bit in the code of the quantiser. -/
def deltaPlace (s : SkipFrame) : Nat :=
  (s.frontBits 0).length + s.deltaZeros

def filterBits (s : SkipFrame) : List Bool :=
  if s.pps.deblockingControl then Bits.ue 0 ++ Bits.se 0 ++ Bits.se 0 else []

/-- The number of bits before the first one bit in the code of the number of macroblocks. -/
def runPlace (s : SkipFrame) : Nat :=
  s.deltaPlace + 1 + s.deltaZeros + s.filterBits.length + s.runZeros

/-- What is written without arithmetic coding. -/
theorem headerBits_append_runBits (h : ¬ s.pps.cabac) (frameNum : Nat) :
    s.headerBits frameNum ++ s.runBits
      = s.frontBits frameNum ++ (Bits.ue s.deltaCode
        ++ (s.filterBits ++ Bits.ue (s.sps.mbWidth * s.sps.mbHeight))) := by
  have hDelta : Bits.se (Int32.ofInt (qp - s.pps.initialQp)) = Bits.ue s.deltaCode := rfl
  simp only [headerBits, runBits, frontBits, headBits, numberBits, leadBits, filterBits, hDelta, if_neg h,
    List.append_assoc, List.nil_append]

theorem zerosAfter_weights (s : SkipFrame) (zeros : Nat) :
    zerosAfter s.weights zeros = s.weightFlags := by
  by_cases hChroma : s.sps.chromaFormat = 0
  · simp [weights, weightFlags, hChroma]
  · simp [weights, weightFlags, hChroma]

theorem emulates_weights (s : SkipFrame) {zeros : Nat} (h : zeros ≤ 22) (place : Nat) :
    emulates s.weights zeros place = false := by
  have hFew : ¬ 23 ≤ zeros := by omega
  by_cases hChroma : s.sps.chromaFormat = 0
  · simp [weights, hChroma, emulates, hFew]
  · simp [weights, hChroma, emulates, hFew]

theorem zerosAfter_numberBits (s : SkipFrame) (frameNum : Nat) :
    zerosAfter (s.numberBits frameNum) 0
      = if s.pps.redundantPicCount then 2
        else zerosAfter (Bits.ofNat s.sps.log2MaxFrameNum frameNum) 0 + 2 := by
  cases hRedundant : s.pps.redundantPicCount with
  | true => simp [numberBits, hRedundant]
  | false => simp [numberBits, hRedundant]

theorem length_numberBits_le (h : s.sps.log2MaxFrameNum ≤ 16) (frameNum : Nat) :
    (s.numberBits frameNum).length ≤ 19 := by
  have hRedundant := length_optional_le s.pps.redundantPicCount (Nat.le_refl [true].length)
  simp only [numberBits, Bits.ue_zero, List.length_append, Bits.length_ofNat, List.length_cons,
    List.length_nil] at hRedundant ⊢
  omega

/-- A one bit stands before the frame number. -/
theorem zerosAfter_headBits (zeros : Nat) : zerosAfter headBits zeros = 0 := by
  have hLast : headBits = headBits.dropLast ++ [true] := by decide
  rw [hLast, zerosAfter_append]
  rfl

theorem zerosAfter_frontBits (s : SkipFrame) (frameNum : Nat) :
    zerosAfter (s.frontBits frameNum) 0
      = if s.pps.weightedPred then s.weightFlags else zerosAfter (s.numberBits frameNum) 0 := by
  rw [frontBits, zerosAfter_append, zerosAfter_append, zerosAfter_headBits]
  cases s.pps.weightedPred with
  | true => exact s.zerosAfter_weights _
  | false => rfl

/-- No start code ends before the code of the quantiser. -/
theorem emulates_frontBits (h : s.sps.log2MaxFrameNum ≤ 16) (frameNum : Nat) :
    emulates (s.frontBits frameNum) 0 0 = false := by
  have hHead : emulates headBits 0 0 = false := by decide
  have hLength := length_numberBits_le h frameNum
  have hZeros := zerosAfter_le (s.numberBits frameNum) 0
  have hNumber (place : Nat) : emulates (s.numberBits frameNum) 0 place = false := by
    apply emulates_of_short
    omega
  have hWeights (place : Nat) : emulates (if s.pps.weightedPred then s.weights else [])
      (zerosAfter (s.numberBits frameNum) 0) place = false := by
    cases s.pps.weightedPred with
    | true =>
        apply emulates_weights
        omega
    | false => rfl
  rw [frontBits, emulates_append, emulates_append, hHead, zerosAfter_append, zerosAfter_headBits,
    hNumber, hWeights]
  rfl

theorem length_frontBits (s : SkipFrame) (frameNum : Nat) :
    (s.frontBits frameNum).length = (s.frontBits 0).length := by
  simp only [frontBits, numberBits, List.length_append, Bits.length_ofNat]

/-- The zeros at the end of the code for the quantiser. -/
def deltaTail (s : SkipFrame) : Nat :=
  zerosAfter (Bits.ofNat s.deltaZeros (s.deltaCode + 1)) 0

theorem deltaZeros_eq_six_iff (h : s.pps.InRange) : s.deltaZeros = 6 ↔ 43 ≤ s.pps.initialQp := by
  have hAll : ∀ initial : Fin 52,
      ((Bits.seCode (Int32.ofInt (qp - initial.val))).toNat + 1).log2 = 6
        ↔ 43 ≤ (initial.val : Int) := by
    decide +kernel
  obtain ⟨initial, hInitial⟩ := exists_initialQp h
  rw [deltaZeros, deltaCode, hInitial]
  exact hAll initial

theorem deltaTail_facts (h : s.pps.InRange) :
    s.deltaTail ≤ 4 ∧ (s.deltaTail = 4 ↔ s.pps.initialQp = 3) ∧
      (s.deltaTail = 3 ↔ s.pps.initialQp = 7) := by
  have hAll : ∀ initial : Fin 52,
      let code := (Bits.seCode (Int32.ofInt (qp - initial.val))).toNat
      let tail := zerosAfter (Bits.ofNat (code + 1).log2 (code + 1)) 0
      tail ≤ 4 ∧ (tail = 4 ↔ (initial.val : Int) = 3) ∧ (tail = 3 ↔ (initial.val : Int) = 7) := by
    decide +kernel
  obtain ⟨initial, hInitial⟩ := exists_initialQp h
  unfold deltaTail deltaZeros deltaCode
  rw [hInitial]
  exact hAll initial

theorem zerosAfter_deltaCode (s : SkipFrame) (zeros : Nat) :
    zerosAfter (Bits.ue s.deltaCode) zeros = s.deltaTail :=
  zerosAfter_ue s.deltaCode zeros

theorem zerosAfter_filterBits (s : SkipFrame) (zeros : Nat) :
    zerosAfter s.filterBits zeros = if s.pps.deblockingControl then 0 else zeros := by
  rw [filterBits, Bits.ue_zero, Bits.se_zero]
  cases s.pps.deblockingControl with
  | true => rfl
  | false => rfl

theorem length_filterBits_le (s : SkipFrame) : s.filterBits.length ≤ 3 := by
  rw [filterBits, Bits.ue_zero, Bits.se_zero]
  exact length_optional_le s.pps.deblockingControl (Nat.le_refl 3)

/-- There are two places where a start code can end. -/
theorem occurs_header (hCavlc : ¬ s.pps.cabac) (hPps : s.pps.InRange) (hSps : s.sps.InRange)
    (hFrames : s.sps.frameMbsOnly) (frameNum : Nat) :
    StartCode.occurs (s.header frameNum)
      = ((23 ≤ zerosAfter (s.frontBits frameNum) 0 + s.deltaZeros && s.deltaPlace % 8 == 7)
        || (23 ≤ zerosAfter s.filterBits s.deltaTail + s.runZeros && s.runPlace % 8 == 7)) := by
  obtain ⟨count, hBits⟩ := s.ofBytes_header frameNum
  have hDelta := deltaZeros_le hPps
  obtain ⟨hTail, _⟩ := deltaTail_facts hPps
  have hRun := runZeros_le hSps hFrames
  have hFront := emulates_frontBits hSps.numberWidth.2 frameNum
  have hFilter (place : Nat) : emulates s.filterBits s.deltaTail place = false := by
    have hShort := s.length_filterBits_le
    apply emulates_of_short
    omega
  have hDeltaCode (zeros place : Nat) : emulates (Bits.ue s.deltaCode) zeros place
      = (23 ≤ zeros + s.deltaZeros && (place + s.deltaZeros) % 8 == 7) :=
    emulates_ue (Nat.le_trans hDelta (by decide)) zeros place
  have hRunCode (zeros place : Nat) :
      emulates (Bits.ue (s.sps.mbWidth * s.sps.mbHeight)) zeros place
        = (23 ≤ zeros + s.runZeros && (place + s.runZeros) % 8 == 7) :=
    emulates_ue (Nat.le_trans hRun (by decide)) zeros place
  have hLength : (Bits.ue s.deltaCode).length = 2 * s.deltaZeros + 1 := Bits.length_ue _
  have hPlace : 0 + (s.frontBits frameNum).length + s.deltaZeros = s.deltaPlace := by
    rw [Nat.zero_add, length_frontBits, deltaPlace]
  have hRunPlace : 0 + (s.frontBits frameNum).length + (2 * s.deltaZeros + 1)
      + s.filterBits.length + s.runZeros = s.runPlace := by
    rw [runPlace, ← hPlace]
    omega
  rw [← emulates_ofBytes, hBits, headerBits_append_runBits hCavlc, emulates_append,
    emulates_replicate, Bool.or_false, emulates_append, hFront, Bool.false_or, emulates_append,
    hDeltaCode, hPlace, zerosAfter_deltaCode, hLength, emulates_append, hFilter, Bool.false_or,
    hRunCode, hRunPlace]

/-- A start code arises in a skipped picture, in one of three ways: behind a frame number that ends
in 15 zero bits, behind the flags for many references, or in front of the number of macroblocks of a
large picture. -/
def Emulates (s : SkipFrame) (frameNum : Nat) : Prop :=
  (¬ s.pps.weightedPred ∧ ¬ s.pps.redundantPicCount ∧ s.sps.log2MaxFrameNum = 16 ∧
      43 ≤ s.pps.initialQp ∧ 2 ^ 15 ∣ frameNum) ∨
    (s.pps.weightedPred ∧ 23 ≤ s.weightFlags + s.deltaZeros ∧ s.deltaPlace % 8 = 7) ∨
    (¬ s.pps.deblockingControl ∧
      (s.pps.initialQp = 3 ∧ 19 ≤ s.runZeros ∨ s.pps.initialQp = 7 ∧ 20 ≤ s.runZeros) ∧
      s.runPlace % 8 = 7)

instance (s : SkipFrame) (frameNum : Nat) : Decidable (s.Emulates frameNum) := by
  unfold Emulates
  infer_instance

/-- The first place: the code of the quantiser. -/
theorem front_iff (hPps : s.pps.InRange) (hSps : s.sps.InRange) (frameNum : Nat) :
    23 ≤ zerosAfter (s.frontBits frameNum) 0 + s.deltaZeros ∧ s.deltaPlace % 8 = 7 ↔
      (¬ s.pps.weightedPred ∧ ¬ s.pps.redundantPicCount ∧ s.sps.log2MaxFrameNum = 16 ∧
        43 ≤ s.pps.initialQp ∧ 2 ^ 15 ∣ frameNum) ∨
      (s.pps.weightedPred ∧ 23 ≤ s.weightFlags + s.deltaZeros ∧ s.deltaPlace % 8 = 7) := by
  have hDelta := deltaZeros_le hPps
  have hFine := deltaZeros_eq_six_iff hPps
  obtain ⟨_, hWidth⟩ := hSps.numberWidth
  rw [zerosAfter_frontBits, zerosAfter_numberBits]
  cases hWeighted : s.pps.weightedPred with
  | true => simp
  | false =>
      cases hRedundant : s.pps.redundantPicCount with
      | true =>
          simp only [Bool.false_eq_true, if_false, if_true, not_true, not_false_eq_true, false_and,
            and_false, or_false, iff_false]
          omega
      | false =>
          have hPlace : s.deltaPlace = 17 + s.sps.log2MaxFrameNum + s.deltaZeros := by
            have hHead : headBits.length = 15 := by decide
            simp only [deltaPlace, frontBits, numberBits, hWeighted, hRedundant, List.length_append,
              Bits.length_ofNat, hHead, List.length_cons, List.length_nil, Bool.false_eq_true, if_false]
            omega
          have hZeros := zerosAfter_le (Bits.ofNat s.sps.log2MaxFrameNum frameNum) 0
          rw [Bits.length_ofNat] at hZeros
          have hDvd (h : 15 ≤ s.sps.log2MaxFrameNum) := le_zerosAfter_ofNat h frameNum 0
          rw [hPlace, ← hFine]
          generalize zerosAfter (Bits.ofNat s.sps.log2MaxFrameNum frameNum) 0 = zeros at hZeros hDvd ⊢
          simp only [Bool.false_eq_true, not_false_eq_true, true_and, if_false, false_and, or_false]
          constructor
          · rintro ⟨hEnough, hLast⟩
            have hWide : 15 ≤ s.sps.log2MaxFrameNum := by omega
            exact ⟨by omega, by omega, (hDvd hWide).mp (by omega)⟩
          · rintro ⟨hSixteen, hSix, hMultiple⟩
            have hMany := (hDvd (by omega)).mpr hMultiple
            omega

/-- The second place: the number of macroblocks. -/
theorem run_iff (hPps : s.pps.InRange) (hSps : s.sps.InRange) (hFrames : s.sps.frameMbsOnly) :
    23 ≤ zerosAfter s.filterBits s.deltaTail + s.runZeros ∧ s.runPlace % 8 = 7 ↔
      ¬ s.pps.deblockingControl ∧
        (s.pps.initialQp = 3 ∧ 19 ≤ s.runZeros ∨ s.pps.initialQp = 7 ∧ 20 ≤ s.runZeros) ∧
        s.runPlace % 8 = 7 := by
  obtain ⟨hTail, hFour, hThree⟩ := deltaTail_facts hPps
  have hRun := runZeros_le hSps hFrames
  rw [zerosAfter_filterBits, ← hFour, ← hThree]
  cases s.pps.deblockingControl with
  | true =>
      simp only [if_true, not_true, false_and, iff_false]
      omega
  | false =>
      simp only [Bool.false_eq_true, not_false_eq_true, true_and, if_false]
      omega

/-- Without arithmetic coding a start code occurs in the header exactly if its fields emulate
one. -/
theorem occurs_header_iff (hCavlc : ¬ s.pps.cabac) (hPps : s.pps.InRange) (hSps : s.sps.InRange)
    (hFrames : s.sps.frameMbsOnly) (frameNum : Nat) :
    StartCode.occurs (s.header frameNum) ↔ s.Emulates frameNum := by
  rw [occurs_header hCavlc hPps hSps hFrames, Emulates, ← or_assoc, ← front_iff hPps hSps,
    ← run_iff hPps hSps hFrames]
  simp

end SkipFrame

end Cadence
