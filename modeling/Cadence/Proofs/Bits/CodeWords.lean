import Cadence.Bits.Golomb
import Cadence.Proofs.Bits.Reading

/-!
Reading back what was written. A run of bits that stands for a value is read as this value wherever it
stands, and the cursor goes behind it (`Reads`). Runs that follow each other are read one after the
other, so a header is read back from its syntax elements.
-/

namespace Cadence

namespace Bits

/-- A code word is zeros, a one bit, and as many further digits as zeros. -/
theorem ue_eq (value : Nat) :
    ue value = List.replicate (value + 1).log2 false
      ++ true :: ofNat (value + 1).log2 (value + 1) := by
  have hTop : (value + 1).testBit (value + 1).log2 = true :=
    Nat.testBit_log2 (Nat.succ_ne_zero value)
  rw [ue, ofNat, hTop]

@[simp] theorem length_ue (value : Nat) : (ue value).length = 2 * (value + 1).log2 + 1 := by
  rw [ue, List.length_append, List.length_replicate, length_ofNat]
  omega

@[simp] theorem ue_zero : ue 0 = [true] := by
  decide

@[simp] theorem se_zero : se 0 = [true] := by
  decide

theorem log2_succ_le {value bits : Nat} (h : value + 1 < 2 ^ (bits + 1)) :
    (value + 1).log2 ≤ bits :=
  Nat.le_of_lt_succ ((Nat.log2_lt (Nat.succ_ne_zero value)).mpr h)

end Bits

namespace BitReader

variable {α β : Type}

/-- The bits that have not been read. -/
def rest (r : BitReader) : List Bool :=
  (Bits.ofBytes r.data.toList).drop r.position

/-- Wherever the word stands it is read as the value, up to its end. -/
def Reads (read : Read α) (word : List Bool) (a : α) : Prop :=
  ∀ r back, r.rest = word ++ back → read r = .ok a { r with position := r.position + word.length }

theorem length_rest (r : BitReader) : r.rest.length = r.left := by
  rw [rest, List.length_drop, Bits.length_ofBytes, left, Array.length_toList]

theorem rest_advance {r : BitReader} {word back : List Bool} (h : r.rest = word ++ back) :
    rest { r with position := r.position + word.length } = back := by
  rw [rest, ← List.drop_drop, ← rest, h, List.drop_left]

theorem rest_ofBytes (data : Bytes) : (ofBytes data).rest = Bits.ofBytes data := by
  simp [rest, ofBytes]

namespace Reads

/-- What is read where a word stands is its value, and the cursor is behind the word. -/
theorem eq_of_ok {read : Read α} {word back : List Bool} {a b : α} {r s : BitReader}
    (hReads : Reads read word a) (hRest : r.rest = word ++ back) (h : read r = .ok b s) :
    b = a ∧ s.rest = back := by
  cases h.symm.trans (hReads r back hRest)
  exact ⟨rfl, rest_advance hRest⟩

theorem pure (a : α) : Reads (pure a) [] a := by
  intro r back _
  rfl

/-- One read behind another reads their words behind each other. -/
theorem bind {read : Read α} {next : α → Read β} {word tail : List Bool} {a : α} {b : β}
    (first : Reads read word a) (second : Reads (next a) tail b) :
    Reads (read >>= next) (word ++ tail) b := by
  intro r back h
  rw [List.append_assoc] at h
  refine bind_eq_ok.mpr ⟨a, _, first r _ h, ?_⟩
  rw [second _ back (rest_advance h), List.length_append, Nat.add_assoc]

theorem map {read : Read α} {word : List Bool} {a : α} (first : Reads read word a) (f : α → β) :
    Reads (do return f (← read)) word (f a) := by
  rw [← List.append_nil word]
  exact first.bind (pure (f a))

theorem readBit (bit : Bool) : Reads readBit [bit] bit := by
  intro r back h
  have hFirst : r.rest[0]? = some bit := by rw [h]; rfl
  rw [rest, List.getElem?_drop, Bits.getElem?_ofBytes, Nat.add_zero, Array.getElem?_toList,
    Option.map_eq_some_iff] at hFirst
  obtain ⟨byte, hByte, hBit⟩ := hFirst
  rw [BitReader.readBit, hByte]
  dsimp only
  rw [hBit]
  rfl

/-- As many bits as there are in a word are read as its number. -/
theorem readBits {word : List Bool} (h : word.length ≤ 32) :
    Reads (readBits word.length) word (Bits.toNat word) := by
  intro r back hWord
  have hLeft : word.length ≤ r.left := by
    rw [← length_rest, hWord, List.length_append]
    exact Nat.le_add_right _ _
  have hField : gather r.data r.position word.length 0 = Bits.toNat word := by
    rcases Nat.eq_zero_or_pos word.length with hNone | hSome
    · rw [List.length_eq_zero_iff.mp hNone, gather]
      rfl
    · have hRange : r.position + word.length ≤ 8 * r.data.size := by
        rw [left] at hLeft
        omega
      rw [gather_eq _ _ _ _ hRange, Nat.zero_mul, Nat.zero_add, Bits.field, ← rest, hWord,
        List.take_left]
  rw [BitReader.readBits, if_neg (Nat.not_lt.mpr h), if_neg (Nat.not_lt.mpr hLeft), hField]

theorem readNat {width : Nat} (h : width ≤ 32) (value : Nat) :
    Reads (BitReader.readBits width) (Bits.ofNat width value) (value % 2 ^ width) := by
  have hWord : (Bits.ofNat width value).length ≤ 32 := by simpa using h
  have hRead := readBits hWord
  rwa [Bits.length_ofNat, Bits.toNat_ofNat] at hRead

theorem readZeros {zeros allowed : Nat} (h : zeros ≤ allowed) :
    Reads (readZeros allowed) (List.replicate zeros false ++ [true]) zeros := by
  induction allowed generalizing zeros with
  | zero =>
      obtain rfl := Nat.le_zero.mp h
      exact (readBit true).bind (pure 0)
  | succ allowed ih =>
      cases zeros with
      | zero => exact (readBit true).bind (pure 0)
      | succ zeros => exact (readBit false).bind ((ih (Nat.le_of_succ_le_succ h)).map (· + 1))

/-- Code words are read back for all values that fit 32 bits, but for the largest. -/
theorem readUe {value : Nat} (h : value + 1 < 2 ^ 32) : Reads readUe (Bits.ue value) value := by
  have hExtra : (value + 1).log2 ≤ 31 := Bits.log2_succ_le h
  have hLow : (1 <<< (value + 1).log2) - 1 + (value + 1) % 2 ^ (value + 1).log2 = value := by
    have hFrom : 2 ^ (value + 1).log2 ≤ value + 1 := Nat.log2_self_le (Nat.succ_ne_zero value)
    have hTill : value + 1 < 2 ^ (value + 1).log2 * 2 := Nat.lt_log2_self
    rw [Nat.one_shiftLeft, Nat.mod_eq_sub_mod hFrom, Nat.mod_eq_of_lt (by omega)]
    omega
  have hRead : Reads BitReader.readUe
      (List.replicate (value + 1).log2 false ++ [true] ++ Bits.ofNat (value + 1).log2 (value + 1))
      ((1 <<< (value + 1).log2) - 1 + (value + 1) % 2 ^ (value + 1).log2) :=
    (readZeros hExtra).bind ((readNat (Nat.le_succ_of_le hExtra) (value + 1)).map _)
  rwa [hLow, List.append_assoc, List.singleton_append, ← Bits.ue_eq] at hRead

end Reads

end BitReader

end Cadence
