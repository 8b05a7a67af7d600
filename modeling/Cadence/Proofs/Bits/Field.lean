import Cadence.Bits.Lemmas

/-!
Coded data as one run of bits: which byte a bit lies in, how runs of bytes are cut, and the number
that a field of the data holds.
-/

namespace Cadence.Bits

/-- A part is the same where its elements are. -/
theorem take_drop_congr {α : Type} {left right : List α} {place width : Nat}
    (h : ∀ index, place ≤ index → index < place + width → left[index]? = right[index]?) :
    (left.drop place).take width = (right.drop place).take width := by
  apply List.ext_getElem?
  intro index
  by_cases hIndex : index < width
  · rw [List.getElem?_take_of_lt hIndex, List.getElem?_take_of_lt hIndex, List.getElem?_drop,
      List.getElem?_drop, h _ (by omega) (by omega)]
  · rw [List.getElem?_eq_none (by simp; omega), List.getElem?_eq_none (by simp; omega)]

/-- The number in the `width` bits of the data that `place` bits precede. -/
def field (data : Bytes) (place width : Nat) : Nat :=
  toNat (((ofBytes data).drop place).take width)

theorem getElem?_ofNat {width index : Nat} (value : Nat) (h : index < width) :
    (ofNat width value)[index]? = some (value.testBit (width - 1 - index)) := by
  induction width generalizing index with
  | zero => omega
  | succ width ih =>
      cases index with
      | zero => simp [ofNat]
      | succ index =>
          rw [ofNat, List.getElem?_cons_succ, ih (by omega)]
          congr 2
          omega

theorem drop_ofNat {width count : Nat} (value : Nat) (h : count ≤ width) :
    (ofNat width value).drop count = ofNat (width - count) value := by
  induction count generalizing width with
  | zero => simp
  | succ count ih =>
      obtain ⟨rest, rfl⟩ : ∃ rest, width = rest + 1 := ⟨width - 1, by omega⟩
      rw [ofNat, List.drop_succ_cons, ih (by omega), Nat.add_sub_add_right]

theorem take_ofNat {width count : Nat} (value : Nat) (h : count ≤ width) :
    (ofNat width value).take count = ofNat count (value >>> (width - count)) := by
  apply List.ext_getElem?
  intro index
  by_cases hIndex : index < count
  · rw [List.getElem?_take_of_lt hIndex, getElem?_ofNat value (by omega),
      getElem?_ofNat _ hIndex, Nat.testBit_shiftRight]
    congr 2
    omega
  · rw [List.getElem?_eq_none (by simp; omega), List.getElem?_eq_none (by simp; omega)]

/-- The last bit of a number is its parity. -/
theorem ofNat_succ_eq_append (width value : Nat) :
    ofNat (width + 1) value = ofNat width (value / 2) ++ [value.testBit 0] := by
  induction width with
  | zero => rfl
  | succ width ih =>
      have hFirst : value.testBit (width + 1) = (value / 2).testBit width := Nat.testBit_succ value width
      rw [ofNat, ih, hFirst]
      rfl

theorem getElem?_ofBytes (data : Bytes) (index : Nat) :
    (ofBytes data)[index]? = data[index / 8]?.map (·.toNat.testBit (7 - index % 8)) := by
  induction data generalizing index with
  | nil => simp
  | cons byte data ih =>
      rw [ofBytes_cons]
      by_cases hFirst : index < 8
      · have hByte : index / 8 = 0 := by omega
        rw [List.getElem?_append_left (by simpa using hFirst), ofByte, getElem?_ofNat _ hFirst,
          hByte, Nat.mod_eq_of_lt hFirst]
        rfl
      · have hByte : index / 8 = (index - 8) / 8 + 1 := by omega
        have hBit : (index - 8) % 8 = index % 8 := by omega
        rw [List.getElem?_append_right (by simpa using hFirst), length_ofByte, ih, hByte, hBit,
          List.getElem?_cons_succ]

theorem ofBytes_drop (data : Bytes) (count : Nat) :
    ofBytes (data.drop count) = (ofBytes data).drop (8 * count) := by
  apply List.ext_getElem?
  intro index
  have hByte : (8 * count + index) / 8 = count + index / 8 := by omega
  have hBit : (8 * count + index) % 8 = index % 8 := by omega
  simp only [getElem?_ofBytes, List.getElem?_drop, hByte, hBit]

theorem ofBytes_take (data : Bytes) (count : Nat) :
    ofBytes (data.take count) = (ofBytes data).take (8 * count) := by
  apply List.ext_getElem?
  intro index
  by_cases hIndex : index < 8 * count
  · rw [List.getElem?_take_of_lt hIndex, getElem?_ofBytes, getElem?_ofBytes,
      List.getElem?_take_of_lt (by omega)]
  · rw [List.getElem?_eq_none (by simp; omega), List.getElem?_eq_none (by simp; omega)]

/-- Bytes with the same bits are the same. -/
theorem ofBytes_injective : Function.Injective ofBytes := by
  intro left right h
  have hLength : left.length = right.length := by
    have := congrArg List.length h
    simp only [length_ofBytes] at this
    omega
  induction left generalizing right with
  | nil => exact (List.length_eq_zero_iff.mp hLength.symm).symm
  | cons byte left ih =>
      cases right with
      | nil => simp at hLength
      | cons other right =>
          obtain ⟨hByte, hRest⟩ := List.append_inj h (by simp)
          have hValue : byte.toNat % 2 ^ 8 = other.toNat % 2 ^ 8 := by
            rw [← toNat_ofNat, ← toNat_ofNat]
            exact congrArg toNat hByte
          have hSame : byte.toNat = other.toNat := by
            have := byte.toNat_lt
            have := other.toNat_lt
            omega
          rw [ih hRest (by simpa using hLength), UInt8.toNat_inj.mp hSame]

theorem field_lt (data : Bytes) (place width : Nat) : field data place width < 2 ^ width :=
  Nat.lt_of_lt_of_le (toNat_lt _)
    (Nat.pow_le_pow_right Nat.two_pos (List.length_take_le _ _))

/-- A field of a piece of the data, counted from the start of the piece. -/
theorem field_piece (data : Bytes) {start count place width : Nat}
    (h : place + width ≤ 8 * count) :
    field ((data.drop start).take count) place width = field data (8 * start + place) width := by
  have hPiece : ((((ofBytes data).drop (8 * start)).take (8 * count)).drop place).take width
      = ((ofBytes data).drop (8 * start + place)).take width := by
    rw [List.drop_take, List.take_take, List.drop_drop]
    congr 1
    omega
  rw [field, field, ofBytes_take, ofBytes_drop, hPiece]

end Cadence.Bits
