import Cadence.Proofs.Bits.Field
import Cadence.Proofs.Nal.StartCodes

/-!
Start codes seen bit by bit: a start code ends with a one bit that is the last bit of a byte and has at
least 23 zero bits before it (`emulates_ofBytes`). So start codes can be looked for in what a writer
writes, whose syntax elements do not keep to bytes.
-/

namespace Cadence.Nal

/-- The number of zero bits at the end, if as many as given precede the run. -/
def zerosAfter (bits : List Bool) (zeros : Nat) : Nat :=
  bits.foldl (fun zeros bit => if bit then 0 else zeros + 1) zeros

/-- A start code ends in a run of bits that the given number of zeros directly precedes, at the given
place in the data. -/
def emulates : (bits : List Bool) → (zeros place : Nat) → Bool
  | [], _, _ => false
  | true :: bits, zeros, place => (23 ≤ zeros && place % 8 == 7) || emulates bits 0 (place + 1)
  | false :: bits, zeros, place => emulates bits (zeros + 1) (place + 1)

@[simp] theorem zerosAfter_nil (zeros : Nat) : zerosAfter [] zeros = zeros := rfl

@[simp] theorem zerosAfter_true (bits : List Bool) (zeros : Nat) :
    zerosAfter (true :: bits) zeros = zerosAfter bits 0 := rfl

@[simp] theorem zerosAfter_false (bits : List Bool) (zeros : Nat) :
    zerosAfter (false :: bits) zeros = zerosAfter bits (zeros + 1) := rfl

@[simp] theorem zerosAfter_append (front back : List Bool) (zeros : Nat) :
    zerosAfter (front ++ back) zeros = zerosAfter back (zerosAfter front zeros) :=
  List.foldl_append

@[simp] theorem zerosAfter_replicate (count zeros : Nat) :
    zerosAfter (List.replicate count false) zeros = zeros + count := by
  induction count generalizing zeros with
  | zero => rfl
  | succ count ih =>
      rw [List.replicate_succ, zerosAfter_false, ih]
      omega

theorem zerosAfter_le (bits : List Bool) (zeros : Nat) :
    zerosAfter bits zeros ≤ zeros + bits.length := by
  induction bits generalizing zeros with
  | nil => simp
  | cons bit bits ih =>
      rw [List.length_cons]
      cases bit with
      | true =>
          have hRest := ih 0
          rw [zerosAfter_true]
          omega
      | false =>
          have hRest := ih (zeros + 1)
          rw [zerosAfter_false]
          omega

/-- A one bit hides all that is before it. -/
theorem zerosAfter_lt {bits : List Bool} (h : true ∈ bits) (zeros : Nat) :
    zerosAfter bits zeros < bits.length := by
  induction bits generalizing zeros with
  | nil => simp at h
  | cons bit bits ih =>
      rw [List.length_cons]
      cases bit with
      | true =>
          have hRest := zerosAfter_le bits 0
          rw [zerosAfter_true]
          omega
      | false =>
          have hRest := ih (by simpa using h) (zeros + 1)
          rw [zerosAfter_false]
          omega

/-- A start code that arises in two runs of bits arises in the first, or in the second behind the
zeros at the end of the first. -/
@[simp] theorem emulates_append (front back : List Bool) (zeros place : Nat) :
    emulates (front ++ back) zeros place
      = (emulates front zeros place
        || emulates back (zerosAfter front zeros) (place + front.length)) := by
  induction front generalizing zeros place with
  | nil => simp [emulates]
  | cons bit front ih =>
      have hPlace : place + 1 + front.length = place + (front.length + 1) := by omega
      cases bit with
      | true => simp [emulates, ih, hPlace, Bool.or_assoc]
      | false => simp [emulates, ih, hPlace]

@[simp] theorem emulates_replicate (count zeros place : Nat) :
    emulates (List.replicate count false) zeros place = false := by
  induction count generalizing zeros place with
  | zero => rfl
  | succ count ih => rw [List.replicate_succ, emulates, ih]

/-- Fewer than 24 bits are too short for a start code, the zeros in front of them included. -/
theorem emulates_of_short {bits : List Bool} {zeros : Nat} (h : zeros + bits.length ≤ 23)
    (place : Nat) : emulates bits zeros place = false := by
  induction bits generalizing zeros place with
  | nil => rfl
  | cons bit bits ih =>
      rw [List.length_cons] at h
      cases bit with
      | true =>
          have hFew : ¬ 23 ≤ zeros := by omega
          simp [emulates, hFew, ih (show 0 + bits.length ≤ 23 by omega)]
      | false =>
          rw [emulates]
          exact ih (by omega) (place + 1)

/-- Before the last bit of a byte nothing ends. -/
theorem emulates_of_open {bits : List Bool} {place : Nat} (h : place % 8 + bits.length ≤ 7)
    (zeros : Nat) : emulates bits zeros place = false := by
  induction bits generalizing zeros place with
  | nil => rfl
  | cons bit bits ih =>
      rw [List.length_cons] at h
      have hNext : (place + 1) % 8 + bits.length ≤ 7 := by omega
      have hOpen : place % 8 ≠ 7 := by omega
      cases bit with
      | true => simp [emulates, hOpen, ih hNext]
      | false => simp [emulates, ih hNext]

/-- A field ends in so many zeros exactly if that power of two divides its number. -/
theorem le_zerosAfter_ofNat {width count : Nat} (h : count ≤ width) (value zeros : Nat) :
    count ≤ zerosAfter (Bits.ofNat width value) zeros ↔ 2 ^ count ∣ value := by
  induction count generalizing width value with
  | zero => simp
  | succ count ih =>
      obtain ⟨rest, rfl⟩ : ∃ rest, width = rest + 1 := ⟨width - 1, by omega⟩
      rw [Bits.ofNat_succ_eq_append, zerosAfter_append]
      cases hLast : value.testBit 0 with
      | true =>
          have hOdd : value % 2 = 1 := by simpa using hLast
          simp only [zerosAfter_true, zerosAfter_nil, Nat.le_zero, Nat.succ_ne_zero, false_iff]
          intro hDvd
          have := Nat.dvd_trans (Nat.dvd_mul_left 2 (2 ^ count)) hDvd
          omega
      | false =>
          have hEven : value % 2 = 0 := by simpa using hLast
          simp only [zerosAfter_false, zerosAfter_nil, Nat.add_le_add_iff_right]
          rw [ih (Nat.le_of_succ_le_succ h), Nat.pow_succ,
            Nat.dvd_div_iff_mul_dvd (Nat.dvd_of_mod_eq_zero hEven), Nat.mul_comm]

theorem mem_ofNat {width value : Nat} (hPos : 0 < value) (hLess : value < 2 ^ width) :
    true ∈ Bits.ofNat width value := by
  by_contra hNone
  have hZeros : Bits.ofNat width value = List.replicate width false := by
    apply List.eq_replicate_iff.mpr
    refine ⟨Bits.length_ofNat width value, ?_⟩
    intro bit hBit
    cases bit with
    | true => exact absurd hBit hNone
    | false => rfl
  have hAll : width ≤ zerosAfter (Bits.ofNat width value) 0 := by
    rw [hZeros, zerosAfter_replicate]
    omega
  have hDvd := (le_zerosAfter_ofNat (Nat.le_refl width) value 0).mp hAll
  exact absurd (Nat.le_of_dvd hPos hDvd) (Nat.not_le.mpr hLess)

/-- Only the last bit of a byte can end a start code, and then it is the only one bit of the byte. -/
theorem emulates_ofByte {byte : UInt8} (hByte : byte ≠ 0) {place : Nat} (hPlace : place % 8 = 0)
    (zeros : Nat) : emulates (Bits.ofByte byte) zeros place = (16 ≤ zeros && byte == 1) := by
  have hSplit : Bits.ofByte byte = Bits.ofNat 7 (byte.toNat / 2) ++ [byte.toNat.testBit 0] :=
    Bits.ofNat_succ_eq_append 7 byte.toNat
  have hFront : emulates (Bits.ofNat 7 (byte.toNat / 2)) zeros place = false := by
    apply emulates_of_open
    rw [Bits.length_ofNat, hPlace]
  have hLess := byte.toNat_lt
  rw [hSplit, emulates_append, hFront, Bool.false_or, Bits.length_ofNat]
  by_cases hOne : byte = 1
  · subst hOne
    have hSeven : Bits.ofNat 7 ((1 : UInt8).toNat / 2) = List.replicate 7 false := by decide
    have hLast : (1 : UInt8).toNat.testBit 0 = true := by decide
    have hEnd : (place + 7) % 8 = 7 := by omega
    rw [hSeven, hLast, zerosAfter_replicate]
    simp [emulates, hEnd]
  · have hMore : 0 < byte.toNat / 2 := by
      have hNotZero : byte.toNat ≠ 0 := fun h => hByte (UInt8.toNat_inj.mp h)
      have hNotOne : byte.toNat ≠ 1 := fun h => hOne (UInt8.toNat_inj.mp h)
      omega
    have hFew := zerosAfter_lt (mem_ofNat hMore (show byte.toNat / 2 < 2 ^ 7 by omega)) zeros
    rw [Bits.length_ofNat] at hFew
    have hShort : ¬ 23 ≤ zerosAfter (Bits.ofNat 7 (byte.toNat / 2)) zeros := by omega
    cases byte.toNat.testBit 0 with
    | true => simp [emulates, hShort, hOne]
    | false => simp [emulates, hOne]

/-- Start codes are found bit by bit, as far as zeros before the data count by whole bytes. -/
theorem emulates_eq_occurs (data : Bytes) {zeros place : Nat} (hPlace : place % 8 = 0) :
    emulates (Bits.ofBytes data) zeros place
      = StartCode.occurs (List.replicate (min (zeros / 8) 2) 0 ++ data) := by
  induction data generalizing zeros place with
  | nil =>
      have hWhole : zeros / 8 = 0 ∨ zeros / 8 = 1 ∨ 2 ≤ zeros / 8 := by omega
      rcases hWhole with hNone | hOne | hMore
      · simp [hNone, emulates, StartCode.occurs]
      · simp [hOne, emulates, StartCode.occurs, StartCode.startsHere]
      · simp [hMore, emulates, List.replicate_succ, StartCode.occurs, StartCode.startsHere]
  | cons byte data ih =>
      have hNext : (place + 8) % 8 = 0 := by omega
      have hWhole : zeros / 8 = 0 ∨ zeros / 8 = 1 ∨ 2 ≤ zeros / 8 := by omega
      rw [Bits.ofBytes_cons, emulates_append, Bits.length_ofByte]
      by_cases hByte : byte = 0
      · subst hByte
        have hZeros : Bits.ofByte 0 = List.replicate 8 false := by decide
        have hMoreZeros : (zeros + 8) / 8 = zeros / 8 + 1 := by omega
        rw [hZeros, emulates_replicate, Bool.false_or, zerosAfter_replicate, ih hNext, hMoreZeros]
        rcases hWhole with hNone | hOne | hMore
        · simp [hNone]
        · simp [hOne, List.replicate_succ]
        · have hStill : 2 ≤ zeros / 8 + 1 := by omega
          simp [hMore, hStill, List.replicate_succ, StartCode.occurs, StartCode.startsHere]
      · have hFew : zerosAfter (Bits.ofByte byte) zeros / 8 = 0 := by
          have hPos : 0 < byte.toNat := Nat.pos_of_ne_zero fun h => hByte (UInt8.toNat_inj.mp h)
          have hLess := zerosAfter_lt (mem_ofNat hPos byte.toNat_lt) zeros
          rw [Bits.length_ofNat] at hLess
          exact Nat.div_eq_of_lt hLess
        rw [emulates_ofByte hByte hPlace, ih hNext, hFew]
        rcases hWhole with hNone | hOne | hMore
        · have hShort : ¬ 16 ≤ zeros := by omega
          simp [hNone, hShort, hByte, StartCode.occurs]
        · have hShort : ¬ 16 ≤ zeros := by omega
          simp [hOne, hShort, hByte, StartCode.occurs, StartCode.startsHere]
        · have hLong : 16 ≤ zeros := by omega
          have hHere := StartCode.startsHere_zeros byte data
          have hThere := StartCode.startsHere_zero_of_ne_zero hByte data
          simp [hMore, hLong, hByte, hHere, hThere, List.replicate_succ, StartCode.occurs]

/-- In the bits of whole bytes a start code arises exactly if it occurs in the bytes. -/
theorem emulates_ofBytes (data : Bytes) :
    emulates (Bits.ofBytes data) 0 0 = StartCode.occurs data :=
  emulates_eq_occurs data rfl

end Cadence.Nal
