import Mathlib.Tactic.Ring
import Cadence.Bits.Reader
import Cadence.Proofs.Bits.Field

/-!
What a reader reads and where its cursor goes. A field is the number in its bits (`readBits_eq_ok`),
and no read moves its cursor back, off its data or past the end (`Read.Steady`).
-/

namespace Cadence.BitReader

variable {α β : Type}

/-- The cursor of a reader lies on its data. -/
def Within (r : BitReader) : Prop :=
  r.position ≤ 8 * r.data.size

/-- A later state of the cursor: the same data, and nothing read twice. -/
structure Follows (s r : BitReader) : Prop where
  data : s.data = r.data
  position : r.position ≤ s.position
  within : r.Within → s.Within

theorem Follows.refl (r : BitReader) : r.Follows r :=
  ⟨rfl, Nat.le_refl _, id⟩

theorem Follows.trans {t s r : BitReader} (later : t.Follows s) (first : s.Follows r) :
    t.Follows r :=
  ⟨later.data.trans first.data, Nat.le_trans first.position later.position,
    fun h => later.within (first.within h)⟩

/-- Two reads succeed one after the other exactly if both do. -/
theorem bind_eq_ok {read : Read α} {next : α → Read β} {r t : BitReader} {b : β} :
    (read >>= next) r = .ok b t ↔ ∃ a s, read r = .ok a s ∧ next a s = .ok b t := by
  change EStateM.bind read next r = _ ↔ _
  unfold EStateM.bind
  cases read r <;> simp [and_assoc]

/-- Two reads fail as the first one does, or as the second one behind it. -/
theorem bind_eq_error {read : Read α} {next : α → Read β} {r t : BitReader} {fault : Fault} :
    (read >>= next) r = .error fault t ↔
      read r = .error fault t ∨ ∃ a s, read r = .ok a s ∧ next a s = .error fault t := by
  change EStateM.bind read next r = _ ↔ _
  unfold EStateM.bind
  cases read r <;> simp [and_assoc]

theorem Read.value?_eq_ok {read : Read α} {data : Bytes} {a : α} :
    read.value? data = .ok a ↔ ∃ s, read (ofBytes data) = .ok a s := by
  unfold Read.value?
  cases read (ofBytes data) <;> simp

/-- Every outcome of a read leaves the cursor in order, and every fault is one of the allowed. -/
structure Read.Steady (allowed : Fault → Prop) (read : Read α) : Prop where
  ok : ∀ r a s, read r = .ok a s → s.Follows r
  error : ∀ r fault s, read r = .error fault s → s.Follows r ∧ allowed fault

namespace Read.Steady

variable {allowed : Fault → Prop}

theorem pure (a : α) : Steady allowed (pure a : Read α) where
  ok := by
    intro r b s h
    cases h
    exact .refl r
  error := by
    intro r fault s h
    cases h

theorem throw {fault : Fault} (h : allowed fault) : Steady allowed (throw fault : Read α) where
  ok := by
    intro r b s h
    cases h
  error := by
    rintro r other s hThrow
    cases hThrow
    exact ⟨.refl r, h⟩

theorem bind {read : Read α} {next : α → Read β} (first : Steady allowed read)
    (later : ∀ a r s, read r = .ok a s → Steady allowed (next a)) :
    Steady allowed (read >>= next) where
  ok := by
    intro r b t h
    obtain ⟨a, s, hRead, hNext⟩ := bind_eq_ok.mp h
    exact ((later a r s hRead).ok s b t hNext).trans (first.ok r a s hRead)
  error := by
    intro r fault t h
    rcases bind_eq_error.mp h with hRead | ⟨a, s, hRead, hNext⟩
    · exact first.error r fault t hRead
    · obtain ⟨hFollows, hAllowed⟩ := (later a r s hRead).error s fault t hNext
      exact ⟨hFollows.trans (first.ok r a s hRead), hAllowed⟩

end Read.Steady

/-- The bits of a byte at and behind an offset, as the reader takes them out. -/
theorem toNat_chunk (byte : UInt8) {offset count : Nat} (hPos : 0 < count)
    (hRange : offset + count ≤ 8) :
    (chunk byte offset count).toNat
      = Bits.toNat (((Bits.ofByte byte).drop offset).take count) := by
  have hMask : (0xFF : UInt8).toNat >>> (8 - count) = 2 ^ count - 1 := by
    have hCount : count = 1 ∨ count = 2 ∨ count = 3 ∨ count = 4 ∨ count = 5 ∨ count = 6 ∨ count = 7
        ∨ count = 8 := by omega
    rcases hCount with h | h | h | h | h | h | h | h <;> subst h <;> decide
  have hShift (amount : Nat) (h : amount < 8) : (UInt8.ofNat amount).toNat % 8 = amount := by
    rw [UInt8.toNat_ofNat_of_lt' (Nat.lt_trans h (by decide)), Nat.mod_eq_of_lt h]
  rw [chunk, UInt8.toNat_and, UInt8.toNat_shiftRight, UInt8.toNat_shiftRight,
    hShift _ (by omega), hShift _ (by omega), hMask, Nat.and_two_pow_sub_one_eq_mod, Bits.ofByte,
    Bits.drop_ofNat _ (by omega), Bits.take_ofNat _ (by omega), Bits.toNat_ofNat]

private theorem drop_toList_of_getElem? {data : Array UInt8} {index : Nat} {byte : UInt8}
    (h : data[index]? = some byte) :
    data.toList.drop index = byte :: data.toList.drop (index + 1) := by
  obtain ⟨hIndex, rfl⟩ := Array.getElem?_eq_some_iff.mp h
  exact List.drop_eq_getElem_cons (by simpa using hIndex)

/-- Bits gathered byte by byte are the bits of the data. -/
theorem gather_eq (data : Array UInt8) (position width high : Nat)
    (h : position + width ≤ 8 * data.size) :
    gather data position width high
      = high * 2 ^ width + Bits.field data.toList position width := by
  fun_induction gather data position width high with
  | case1 position high => simp [Bits.field]
  | case2 position width high hWidth hNone =>
      have := Array.getElem?_eq_none_iff.mp hNone
      omega
  | case3 position width high hWidth byte hByte count ih =>
      have hCount : 0 < count ∧ count ≤ width ∧ position % 8 + count ≤ 8 := by
        simp only [count]
        omega
      have hHead : (((Bits.ofBytes data.toList).drop position).take width).take count
          = ((Bits.ofByte byte).drop (position % 8)).take count := by
        have hSplit : position = 8 * (position / 8) + position % 8 := by omega
        have hList : data.toList.drop (position / 8) = byte :: data.toList.drop (position / 8 + 1) :=
          drop_toList_of_getElem? hByte
        rw [List.take_take, Nat.min_eq_left hCount.2.1]
        conv => lhs; rw [hSplit, ← List.drop_drop, ← Bits.ofBytes_drop, hList, Bits.ofBytes_cons]
        rw [List.drop_append_of_le_length (by simp; omega),
          List.take_append_of_le_length (by simp; omega)]
      have hTail : (((Bits.ofBytes data.toList).drop position).take width).drop count
          = ((Bits.ofBytes data.toList).drop (position + count)).take (width - count) := by
        rw [List.drop_take, List.drop_drop]
      have hField : Bits.field data.toList position width
          = (chunk byte (position % 8) count).toNat * 2 ^ (width - count)
            + Bits.field data.toList (position + count) (width - count) := by
        rw [toNat_chunk byte hCount.1 hCount.2.2, ← hHead, Bits.field, Bits.field, ← hTail]
        conv => lhs; rw [← List.take_append_drop count
          (((Bits.ofBytes data.toList).drop position).take width), Bits.toNat_append]
        congr 3
        simp
        omega
      have hPower : 2 ^ width = 2 ^ count * 2 ^ (width - count) := by
        rw [← Nat.pow_add]
        congr 1
        omega
      have hChunk : (chunk byte (position % 8) count).toNat < 2 ^ count := by
        rw [toNat_chunk byte hCount.1 hCount.2.2]
        exact Nat.lt_of_lt_of_le (Bits.toNat_lt _)
          (Nat.pow_le_pow_right Nat.two_pos (List.length_take_le _ _))
      rw [ih (by omega), ← Nat.shiftLeft_add_eq_or_of_lt hChunk, Nat.shiftLeft_eq, hField, hPower]
      ring

/-- A field is read whole, with its number, or the cursor does not move. -/
theorem readBits_eq_ok {width value : Nat} {r s : BitReader}
    (h : readBits width r = .ok value s) :
    width ≤ 32 ∧ width ≤ r.left ∧ s = { r with position := r.position + width } ∧
      (r.Within → value = Bits.field r.data.toList r.position width) := by
  unfold readBits at h
  split at h
  case isTrue => cases h
  case isFalse hWidth =>
    split at h
    case isTrue => cases h
    case isFalse hLeft =>
      cases h
      refine ⟨by omega, by omega, rfl, fun hWithin => ?_⟩
      have hRange : r.position + width ≤ 8 * r.data.size := by
        simp only [left, Within] at hLeft hWithin
        omega
      rw [gather_eq _ _ _ _ hRange, Nat.zero_mul, Nat.zero_add]

namespace Read.Steady

variable {allowed : Fault → Prop}

theorem readBit (hEnd : allowed .endOfData) : Steady allowed readBit where
  ok := by
    intro r bit s h
    unfold BitReader.readBit at h
    split at h
    case h_1 byte hByte =>
      cases h
      have hIndex := (Array.getElem?_eq_some_iff.mp hByte).1
      exact ⟨rfl, by simp, fun _ => by simp only [Within]; omega⟩
    case h_2 => cases h
  error := by
    intro r fault s h
    unfold BitReader.readBit at h
    split at h <;> cases h
    exact ⟨.refl r, hEnd⟩

theorem readBits (hEnd : allowed .endOfData) {width : Nat}
    (hWidth : width ≤ 32 ∨ allowed (.readWidth width)) :
    Steady allowed (readBits width) where
  ok := by
    intro r value s h
    obtain ⟨_, hLeft, rfl, _⟩ := readBits_eq_ok h
    refine ⟨rfl, by simp, fun hWithin => ?_⟩
    simp only [Within, left] at hWithin hLeft ⊢
    omega
  error := by
    intro r fault s h
    unfold BitReader.readBits at h
    split at h
    case isTrue hWide =>
      cases h
      exact ⟨.refl r, hWidth.resolve_left (by omega)⟩
    case isFalse =>
      split at h <;> cases h
      exact ⟨.refl r, hEnd⟩

theorem skipBits (hEnd : allowed .endOfData) (count : Nat) : Steady allowed (skipBits count) where
  ok := by
    intro r value s h
    unfold BitReader.skipBits at h
    split at h <;> cases h
    refine ⟨rfl, by simp, fun hWithin => ?_⟩
    simp only [Within, left] at *
    omega
  error := by
    intro r fault s h
    unfold BitReader.skipBits at h
    split at h <;> cases h
    exact ⟨.refl r, hEnd⟩

theorem readZeros (hEnd : allowed .endOfData) (hLong : allowed .golombTooLong) (count : Nat) :
    Steady allowed (readZeros count) := by
  induction count with
  | zero =>
      refine (readBit hEnd).bind fun bit _ _ _ => ?_
      cases bit with
      | false => exact .throw hLong
      | true => exact .pure 0
  | succ count ih =>
      refine (readBit hEnd).bind fun bit _ _ _ => ?_
      cases bit with
      | false => exact ih.bind fun _ _ _ _ => .pure _
      | true => exact .pure 0

end Read.Steady

theorem le_of_readZeros {count zeros : Nat} {r s : BitReader}
    (h : readZeros count r = .ok zeros s) : zeros ≤ count := by
  induction count generalizing r zeros with
  | zero =>
      obtain ⟨bit, t, _, hRest⟩ := bind_eq_ok.mp h
      cases bit <;> cases hRest
      exact Nat.le_refl 0
  | succ count ih =>
      obtain ⟨bit, t, _, hRest⟩ := bind_eq_ok.mp h
      cases bit with
      | true =>
          cases hRest
          exact Nat.zero_le _
      | false =>
          obtain ⟨more, _, hMore, hPure⟩ := bind_eq_ok.mp hRest
          cases hPure
          exact Nat.succ_le_succ (ih hMore)

namespace Read.Steady

variable {allowed : Fault → Prop}

/-- Codes end in no other faults than the end of the data and too many zeros. -/
theorem readUe (hEnd : allowed .endOfData) (hLong : allowed .golombTooLong) :
    Steady allowed readUe := by
  refine (readZeros hEnd hLong 31).bind fun zeros _ _ hZeros => ?_
  have hWidth : zeros ≤ 32 := Nat.le_succ_of_le (le_of_readZeros hZeros)
  exact (readBits hEnd (.inl hWidth)).bind fun _ _ _ _ => .pure _

theorem skipMany {read : Read α} (h : Steady allowed read) (count : Nat) :
    Steady allowed (skipMany read count) := by
  induction count with
  | zero => exact .pure ()
  | succ count ih => exact h.bind fun _ _ _ _ => ih

end Read.Steady

end Cadence.BitReader
