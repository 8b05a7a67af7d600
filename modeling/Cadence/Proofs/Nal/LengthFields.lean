import Mathlib.Algebra.Ring.Nat
import Cadence.Nal.Scan
import Cadence.Proofs.SkipFrame

/-!
Length fields. A length that is written in front of a unit is read back as long as it fits its field, and
the unit is found behind it, whatever its bytes are (`scan_lengthField`).
-/

namespace Cadence.Nal

/-- The first byte weighs 256 to the number of bytes that follow it. -/
theorem bigEndian_cons (byte : UInt8) (data : Bytes) :
    bigEndian (byte :: data) = byte.toNat * 256 ^ data.length + bigEndian data := by
  have hStart (data : Bytes) (start : Nat) :
      data.foldl (fun value byte => 256 * value + byte.toNat) start
        = start * 256 ^ data.length + bigEndian data := by
    induction data generalizing start with
    | nil => simp [bigEndian]
    | cons byte data ih =>
        rw [bigEndian, List.foldl_cons, List.foldl_cons, ih, ih, List.length_cons, Nat.pow_succ]
        simp only [Nat.mul_zero, Nat.zero_add, Nat.add_mul, Nat.add_assoc]
        rw [Nat.mul_comm 256 start, Nat.mul_assoc, Nat.mul_comm 256]
  rw [bigEndian, List.foldl_cons, Nat.mul_zero, Nat.zero_add, hStart]

/-- A number has no more bytes than it is read from. -/
theorem bigEndian_lt (data : Bytes) : bigEndian data < 256 ^ data.length := by
  induction data with
  | nil => exact Nat.one_pos
  | cons byte data ih =>
      have hByte := byte.toNat_lt
      calc
        bigEndian (byte :: data) = byte.toNat * 256 ^ data.length + bigEndian data :=
          bigEndian_cons byte data
        _ < (byte.toNat + 1) * 256 ^ data.length := by
          rw [Nat.add_mul, Nat.one_mul]
          exact Nat.add_lt_add_left ih _
        _ ≤ 256 ^ (byte :: data).length := by
          rw [List.length_cons, Nat.pow_succ, Nat.mul_comm]
          exact Nat.mul_le_mul_left _ hByte

/-- A number that is written in some bytes is read back as far as it fits them. -/
theorem bigEndian_bigEndianBytes (count value : Nat) :
    bigEndian (bigEndianBytes count value) = value % 256 ^ count := by
  induction count with
  | zero => simp [bigEndianBytes, bigEndian, Nat.mod_one]
  | succ count ih =>
      have hByte : (UInt8.ofNat (value >>> (8 * count))).toNat = value / 256 ^ count % 256 := by
        rw [UInt8.toNat_ofNat', Nat.shiftRight_eq_div_pow, Nat.pow_mul]
      rw [bigEndianBytes, bigEndian_cons, length_bigEndianBytes, ih, hByte, Nat.mod_pow_succ,
        Nat.mul_comm, Nat.add_comm]

/-- Bytes are known from their number and the number that they write. -/
theorem bigEndian_inj {left right : Bytes} (hLength : left.length = right.length)
    (h : bigEndian left = bigEndian right) : left = right := by
  induction left generalizing right with
  | nil => exact (List.length_eq_zero_iff.mp hLength.symm).symm
  | cons byte left ih =>
      cases right with
      | nil => cases hLength
      | cons other right =>
          have hRest : left.length = right.length := Nat.succ.inj hLength
          have hFirst (byte : UInt8) (data : Bytes) :
              bigEndian (byte :: data) / 256 ^ data.length = byte.toNat := by
            rw [bigEndian_cons, Nat.add_comm, Nat.add_mul_div_right _ _ (Nat.pow_pos (by decide)),
              Nat.div_eq_of_lt (bigEndian_lt data), Nat.zero_add]
          have hByte : byte = other := by
            rw [← UInt8.toNat_inj, ← hFirst byte left, ← hFirst other right, h, hRest]
          rw [bigEndian_cons, bigEndian_cons, hByte, hRest, Nat.add_left_cancel_iff] at h
          rw [hByte, ih hRest h]

/-- Bytes are written again from the number that they write. -/
theorem bigEndianBytes_bigEndian (data : Bytes) : bigEndianBytes data.length (bigEndian data) = data := by
  apply bigEndian_inj (length_bigEndianBytes _ _)
  rw [bigEndian_bigEndianBytes, Nat.mod_eq_of_lt (bigEndian_lt data)]

/-- A unit behind its length is found as it is, and so are those behind it. -/
theorem unitsByLength_lengthField {size : LengthSize} {unit : Bytes} (hUnit : unit ≠ [])
    (h : unit.length < 2 ^ (8 * size.bytes)) (offset : Nat) (rest : Bytes) :
    unitsByLength size offset (bigEndianBytes size.bytes unit.length ++ (unit ++ rest))
      = .cons ⟨unit.headD 0, offset + size.bytes, unit.length⟩
          (unitsByLength size (offset + size.bytes + unit.length) rest) := by
  have hPos : 0 < unit.length := List.length_pos_iff.mpr hUnit
  have hSize := length_bigEndianBytes size.bytes unit.length
  generalize hField : bigEndianBytes size.bytes unit.length = field at hSize ⊢
  have hLength : bigEndian field = unit.length := by
    rw [← hField, bigEndian_bigEndianBytes]
    apply Nat.mod_eq_of_lt
    rwa [Nat.pow_mul] at h
  have hLong : ¬ isShorter (field ++ (unit ++ rest)) (size.bytes + 1) := by
    rw [isShorter_iff, List.length_append, List.length_append]
    omega
  have hFits : ¬ (unit.length = 0 ∨ isShorter (unit ++ rest) unit.length) := by
    rw [isShorter_iff, List.length_append]
    omega
  have hHead : (unit ++ rest).headD 0 = unit.headD 0 := by
    cases unit with
    | nil => contradiction
    | cons => rfl
  rw [unitsByLength, if_neg hLong, ← hSize, List.take_left, List.drop_left, hLength]
  dsimp only
  rw [if_neg hFits, hHead, List.drop_left]

/-- An end that holds no more than a length field is passed over. -/
theorem unitsByLength_of_le {size : LengthSize} {data : Bytes} (h : data.length ≤ size.bytes)
    (offset : Nat) : unitsByLength size offset data = .done := by
  rw [unitsByLength, if_pos]
  exact (isShorter_iff _ _).mpr (Nat.lt_succ_of_le h)

theorem unitsByLength_nil (size : LengthSize) (offset : Nat) :
    unitsByLength size offset [] = .done :=
  unitsByLength_of_le (Nat.zero_le _) offset

/-- A length field stops the search if it says nothing, or more than there is. -/
theorem unitsByLength_of_wrong {size : LengthSize} {data : Bytes} (hRoom : size.bytes < data.length)
    (h : bigEndian (data.take size.bytes) = 0 ∨
      data.length - size.bytes < bigEndian (data.take size.bytes)) (offset : Nat) :
    unitsByLength size offset data
      = .stopped (.nalLength (bigEndian (data.take size.bytes)) (data.length - size.bytes)) := by
  have hLong : ¬ isShorter data (size.bytes + 1) := by
    rw [isShorter_iff]
    omega
  rw [unitsByLength, if_neg hLong]
  dsimp only
  rw [if_pos, List.length_drop]
  rwa [isShorter_iff, List.length_drop]

theorem Framing.ofLengthSize_bytes (size : LengthSize) :
    ofLengthSize size.bytes = .ok (.lengthPrefixed size) := by
  rw [ofLengthSize, LengthSize.ofNat?, dif_pos ⟨size.pos, size.le_four⟩]

/-- Only length fields of one to four bytes make a framing. -/
theorem Framing.exists_of_ofLengthSize {bytes : Nat} {framing : Framing}
    (h : ofLengthSize bytes = .ok framing) :
    ∃ size : LengthSize, size.bytes = bytes ∧ framing = .lengthPrefixed size := by
  unfold ofLengthSize LengthSize.ofNat? at h
  split at h
  case h_1 size hSize =>
    cases h
    split at hSize <;> cases hSize
    exact ⟨_, rfl, rfl⟩
  case h_2 => cases h

/-- A single unit behind its length is found as it is. -/
theorem scan_lengthField {size : LengthSize} {header : UInt8} (hHeader : ¬ isForbidden header)
    {rest : Bytes} (h : rest.length + 1 < 2 ^ (8 * size.bytes)) :
    scan (.lengthPrefixed size)
        (bigEndianBytes size.bytes (rest.length + 1) ++ header :: rest)
      = .ok ⟨[.ofExtent ⟨header, size.bytes, rest.length + 1⟩], false⟩ := by
  have hLayout : unitsByLength size 0
        (bigEndianBytes size.bytes (rest.length + 1) ++ header :: rest)
      = .cons ⟨header, size.bytes, rest.length + 1⟩ .done := by
    have hUnit := unitsByLength_lengthField (List.cons_ne_nil header rest) h 0 []
    rwa [unitsByLength_nil, List.append_nil, Nat.zero_add] at hUnit
  rw [scan, layout, hLayout]
  show select maxUnits [_] none = _
  rw [maxUnits, select, if_neg hHeader, select]
  rfl

end Cadence.Nal
