import Cadence.Bits.Overwrite
import Cadence.Proofs.Bits.Field

/-!
What is changed by overwriting bits in place: the bits of the range, and nothing else
(`overwrite_eq_ok`).
-/

namespace Cadence.Bits

/-- Bits after a run has been written over those that `place` bits precede. -/
def splice (bits : List Bool) (place : Nat) (run : List Bool) : List Bool :=
  bits.take place ++ run ++ bits.drop (place + run.length)

/-- Bits outside the place of a splice stay. -/
theorem getElem?_splice_of_outside {bits run : List Bool} {place index : Nat}
    (h : place + run.length ≤ bits.length) (hOutside : index < place ∨ place + run.length ≤ index) :
    (splice bits place run)[index]? = bits[index]? := by
  have hTake : (bits.take place).length = place := by simp; omega
  rcases hOutside with hBefore | hBehind
  · rw [splice, List.append_assoc, List.getElem?_append_left (by omega),
      List.getElem?_take_of_lt hBefore]
  · rw [splice, List.getElem?_append_right (by simp; omega), List.getElem?_drop]
    congr 1
    simp
    omega

/-- Replacing bits in a piece of the data replaces them in the data. -/
theorem splice_append {front middle back run : List Bool} {place : Nat}
    (h : place + run.length ≤ middle.length) :
    splice (front ++ middle ++ back) (front.length + place) run
      = front ++ splice middle place run ++ back := by
  have hTake : (front ++ middle ++ back).take (front.length + place)
      = front ++ middle.take place := by
    rw [List.append_assoc, List.take_length_add_append, List.take_append_of_le_length (by omega)]
  have hDrop : (front ++ middle ++ back).drop (front.length + place + run.length)
      = middle.drop (place + run.length) ++ back := by
    rw [List.append_assoc, Nat.add_assoc, List.drop_length_add_append,
      List.drop_append_of_le_length h]
  rw [splice, hTake, hDrop, splice]
  simp only [List.append_assoc]

theorem drop_splice {bits run : List Bool} {place count : Nat}
    (h : place + run.length ≤ bits.length) (hBehind : place + run.length ≤ count) :
    (splice bits place run).drop count = bits.drop count := by
  apply List.ext_getElem?
  intro index
  rw [List.getElem?_drop, List.getElem?_drop, getElem?_splice_of_outside h (.inr (by omega))]

/-- At its place the run is found again. -/
theorem take_drop_splice {bits run : List Bool} {place : Nat}
    (h : place + run.length ≤ bits.length) :
    ((splice bits place run).drop place).take run.length = run := by
  have hTake : (bits.take place).length = place := by simp; omega
  rw [splice, List.append_assoc, List.drop_append, hTake, List.drop_of_length_le (by omega)]
  simp

private theorem toNat_mask {shift : Nat} (h : shift < 8) :
    ((1 : UInt8) <<< UInt8.ofNat shift).toNat = 2 ^ shift := by
  have hShift : shift = 0 ∨ shift = 1 ∨ shift = 2 ∨ shift = 3 ∨ shift = 4 ∨ shift = 5 ∨ shift = 6
      ∨ shift = 7 := by omega
  rcases hShift with h | h | h | h | h | h | h | h <;> subst h <;> rfl

/-- Masking a byte sets the bit of the mask and no other. -/
private theorem testBit_masked (byte : UInt8) (bit : Bool) {shift index : Nat} (hShift : shift < 8)
    (hIndex : index < 8) :
    (if bit then byte ||| (1 <<< UInt8.ofNat shift)
      else byte &&& ~~~(1 <<< UInt8.ofNat shift)).toNat.testBit index
      = if index = shift then bit else byte.toNat.testBit index := by
  have hSize : UInt8.size - 1 - 2 ^ shift = 2 ^ 8 - (2 ^ shift + 1) := by
    change 256 - 1 - 2 ^ shift = 256 - (2 ^ shift + 1)
    omega
  have hPower : 2 ^ shift < 2 ^ 8 := Nat.pow_lt_pow_right (by decide) hShift
  cases bit with
  | true =>
      simp only [if_true, UInt8.toNat_or, toNat_mask hShift, Nat.testBit_or, Nat.testBit_two_pow]
      by_cases h : index = shift
      · simp [h]
      · simp [h, Ne.symm h]
  | false =>
      simp only [Bool.false_eq_true, if_false, UInt8.toNat_and, UInt8.toNat_not, toNat_mask hShift,
        hSize, Nat.testBit_and, Nat.testBit_two_pow_sub_succ hPower, Nat.testBit_two_pow]
      by_cases h : index = shift
      · simp [h]
      · simp [h, Ne.symm h, hIndex]

theorem length_setBit (data : Bytes) (index : Nat) (bit : Bool) :
    (setBit data index bit).length = data.length := by
  simp [setBit]

/-- Setting a bit in its byte is setting it in the list of all bits. -/
theorem ofBytes_setBit (data : Bytes) (index : Nat) (bit : Bool) :
    ofBytes (setBit data index bit) = (ofBytes data).set index bit := by
  apply List.ext_getElem?
  intro place
  rw [getElem?_ofBytes, setBit, List.getElem?_modify, List.getElem?_set, getElem?_ofBytes]
  have hPlace : 7 - place % 8 < 8 := by omega
  by_cases hByte : index / 8 = place / 8
  · simp only [if_pos hByte]
    cases hData : data[place / 8]? with
    | none =>
        have hLength : ¬ index < (ofBytes data).length := by
          have := List.getElem?_eq_none_iff.mp hData
          rw [length_ofBytes]
          omega
        rw [if_neg hLength]
        simp
    | some byte =>
        have hLength : index < (ofBytes data).length := by
          have := (List.getElem?_eq_some_iff.mp hData).1
          rw [length_ofBytes]
          omega
        have hBit : (7 - place % 8 = 7 - index % 8) = (index = place) := by
          apply propext
          omega
        have hMasked := testBit_masked byte bit (Nat.lt_of_le_of_lt (Nat.sub_le 7 (index % 8))
          (by decide)) hPlace
        simp only [hBit] at hMasked
        simp only [Option.map_eq_map, Option.map_some, hMasked, hLength, if_true]
        split <;> rfl
  · have hPlaces : index ≠ place := fun h => hByte (h ▸ rfl)
    simp [hByte, hPlaces]

theorem length_setRun (data : Bytes) (index : Nat) (run : List Bool) :
    (setRun data index run).length = data.length := by
  induction run generalizing data index with
  | nil => rfl
  | cons bit run ih => rw [setRun, ih, length_setBit]

/-- Setting bits one by one is splicing in their run, by induction over it. -/
theorem ofBytes_setRun (data : Bytes) (index : Nat) (run : List Bool)
    (h : index + run.length ≤ 8 * data.length) :
    ofBytes (setRun data index run) = splice (ofBytes data) index run := by
  induction run generalizing data index with
  | nil => simp [setRun, splice]
  | cons bit run ih =>
      have hIndex : index < (ofBytes data).length := by
        rw [length_ofBytes]
        simp only [List.length_cons] at h
        omega
      have hRun : index + 1 + run.length ≤ 8 * (setBit data index bit).length := by
        rw [length_setBit]
        simp only [List.length_cons] at h
        omega
      rw [setRun, ih _ _ hRun, ofBytes_setBit, splice, splice, List.drop_set_of_lt (by omega),
        List.take_add_one, List.take_set_of_le (by omega), List.getElem?_set_self hIndex]
      simp only [Option.toList_some, List.append_assoc, List.singleton_append, List.length_cons,
        Nat.add_assoc, Nat.add_comm 1]

/-- Overwriting works on ranges of at most 32 bits within the data, and writes the low bits of the
value there. -/
theorem overwrite_eq_ok {data out : Bytes} {offset width value : Nat}
    (h : overwrite data offset width value = .ok out) :
    width ≤ 32 ∧ offset + width ≤ 8 * data.length ∧ out.length = data.length ∧
      ofBytes out = splice (ofBytes data) offset (ofNat width value) := by
  unfold overwrite at h
  split at h
  case isTrue => cases h
  case isFalse hWidth =>
    split at h
    case isTrue => cases h
    case isFalse hRange =>
      cases h
      have hSplit : offset = 8 * (offset / 8) + offset % 8 := by omega
      have hRest : offset % 8 + (ofNat width value).length
          ≤ 8 * (data.drop (offset / 8)).length := by
        rw [length_ofNat, List.length_drop]
        omega
      refine ⟨by omega, by omega, ?_, ?_⟩
      · rw [List.length_append, length_setRun, ← List.length_append, List.take_append_drop]
      · rw [ofBytes_append, ofBytes_setRun _ _ _ hRest, splice, ofBytes_drop, ofBytes_take,
          List.drop_drop, ← List.append_assoc, ← List.append_assoc, ← List.take_add, ← hSplit,
          splice, ← Nat.add_assoc, ← hSplit]

/-- A field within range is overwritten bit by bit. -/
theorem overwrite_eq_setRun {data : Bytes} {offset width value : Nat} (hWidth : ¬ 32 < width)
    (hRange : ¬ 8 * data.length < offset + width) :
    overwrite data offset width value
      = .ok (setRun data offset (ofNat width value)) := by
  obtain ⟨out, hOut⟩ : ∃ out, overwrite data offset width value = .ok out := by
    rw [overwrite, if_neg hWidth, if_neg hRange]
    exact ⟨_, rfl⟩
  obtain ⟨_, _, _, hBits⟩ := overwrite_eq_ok hOut
  have hRun := ofBytes_setRun data offset (ofNat width value)
    (by rw [length_ofNat]; omega)
  rw [hOut, ofBytes_injective (hBits.trans hRun.symm)]

/-- Data behind the range is not looked at. -/
theorem overwrite_append {front : Bytes} (back : Bytes) {offset width : Nat} (value : Nat)
    (h : offset + width ≤ 8 * front.length) :
    overwrite (front ++ back) offset width value
      = (overwrite front offset width value).map (· ++ back) := by
  by_cases hWidth : width > 32
  · rw [overwrite, overwrite, if_pos hWidth, if_pos hWidth]
    rfl
  · have hRun : (ofNat width value).length = width := length_ofNat width value
    have hSplice := @splice_append [] (ofBytes front) (ofBytes back) (ofNat width value) offset
      (by rw [hRun, length_ofBytes]; exact h)
    rw [List.length_nil, Nat.zero_add, List.nil_append, List.nil_append, ← ofBytes_append] at hSplice
    rw [overwrite_eq_setRun hWidth (by rw [List.length_append]; omega),
      overwrite_eq_setRun hWidth (by omega)]
    refine congrArg Except.ok (ofBytes_injective ?_)
    rw [ofBytes_append, ofBytes_setRun _ _ _ (by rw [hRun, List.length_append]; omega),
      ofBytes_setRun _ _ _ (by rw [hRun]; exact h), hSplice]

/-- The range holds the new value afterwards, as far as the value fits. -/
theorem field_of_overwrite {data out : Bytes} {offset width value : Nat}
    (h : overwrite data offset width value = .ok out) :
    field out offset width = value % 2 ^ width := by
  obtain ⟨_, hRange, _, hBits⟩ := overwrite_eq_ok h
  have hRun := @take_drop_splice (ofBytes data) (ofNat width value) offset (by simpa using hRange)
  rw [length_ofNat] at hRun
  rw [field, hBits, hRun, toNat_ofNat]

/-- Bits outside the field stay. -/
theorem getElem?_of_overwrite {data out : Bytes} {offset width value index : Nat}
    (h : overwrite data offset width value = .ok out)
    (hOutside : index < offset ∨ offset + width ≤ index) :
    (ofBytes out)[index]? = (ofBytes data)[index]? := by
  obtain ⟨_, hRange, _, hBits⟩ := overwrite_eq_ok h
  rw [hBits, getElem?_splice_of_outside (by simpa using hRange) (by simpa using hOutside)]

/-- Bytes behind the field stay. -/
theorem drop_of_overwrite {data out : Bytes} {offset width value count : Nat}
    (h : overwrite data offset width value = .ok out) (hBehind : offset + width ≤ 8 * count) :
    out.drop count = data.drop count := by
  obtain ⟨_, hRange, _, hBits⟩ := overwrite_eq_ok h
  apply ofBytes_injective
  rw [ofBytes_drop, ofBytes_drop, hBits, drop_splice (by simpa using hRange) (by simpa using hBehind)]

end Cadence.Bits
