import Mathlib.Algebra.Ring.Nat
import Cadence.Nal.StartCode

/-!
Four bytes that are looked at as one word. Whether one of them is zero is seen from what is borrowed when one is
subtracted from each byte; the answer is right for all words (`hasZeroByte_word_iff`).
-/

namespace Cadence.Nal.StartCode

theorem or_shiftLeft {low count : Nat} (h : low < 2 ^ count) (high : Nat) :
    low ||| high <<< count = low + high * 2 ^ count := by
  rw [Nat.or_comm, ← Nat.shiftLeft_add_eq_or_of_lt h, Nat.shiftLeft_eq, Nat.add_comm]

theorem toNat_toUInt32_shiftLeft (byte : UInt8) {amount : UInt32} (h : amount.toNat ≤ 24) :
    (byte.toUInt32 <<< amount).toNat = byte.toNat <<< amount.toNat := by
  have hByte := byte.toNat_lt
  have hPower : 2 ^ (amount.toNat + 8) ≤ 2 ^ 32 := Nat.pow_le_pow_right Nat.two_pos (by omega)
  have hLess : byte.toNat <<< amount.toNat < 2 ^ 32 :=
    calc byte.toNat <<< amount.toNat = byte.toNat * 2 ^ amount.toNat := Nat.shiftLeft_eq _ _
      _ < 2 ^ 8 * 2 ^ amount.toNat := Nat.mul_lt_mul_of_pos_right hByte (Nat.two_pow_pos _)
      _ = 2 ^ (amount.toNat + 8) := by rw [← Nat.pow_add, Nat.add_comm]
      _ ≤ 2 ^ 32 := hPower
  have hAmount : amount.toNat % 32 = amount.toNat := Nat.mod_eq_of_lt (by omega)
  rw [UInt32.toNat_shiftLeft, UInt8.toNat_toUInt32, hAmount, Nat.mod_eq_of_lt hLess]

/-- Four bytes make up a word, the first of them its lowest byte. -/
theorem toNat_word (a b c d : UInt8) :
    (word a b c d).toNat = a.toNat + b.toNat * 2 ^ 8 + c.toNat * 2 ^ 16 + d.toNat * 2 ^ 24 := by
  have ha := a.toNat_lt
  have hb := b.toNat_lt
  have hc := c.toNat_lt
  rw [word, UInt32.toNat_or, UInt32.toNat_or, UInt32.toNat_or, UInt8.toNat_toUInt32,
    toNat_toUInt32_shiftLeft b (by decide), toNat_toUInt32_shiftLeft c (by decide),
    toNat_toUInt32_shiftLeft d (by decide)]
  calc a.toNat ||| b.toNat <<< 8 ||| c.toNat <<< 16 ||| d.toNat <<< 24
      = (a.toNat + b.toNat * 2 ^ 8) ||| c.toNat <<< 16 ||| d.toNat <<< 24 := by
        rw [or_shiftLeft ha]
    _ = (a.toNat + b.toNat * 2 ^ 8 + c.toNat * 2 ^ 16) ||| d.toNat <<< 24 := by
        rw [@or_shiftLeft _ 16 (by omega)]
    _ = a.toNat + b.toNat * 2 ^ 8 + c.toNat * 2 ^ 16 + d.toNat * 2 ^ 24 := by
        rw [or_shiftLeft (by omega)]

/-- The places of the top bits of the four bytes of a word. -/
def topBits : List Nat := [7, 15, 23, 31]

theorem testBit_topBits (place : Nat) : (0x80808080 : Nat).testBit place = true ↔ place ∈ topBits := by
  by_cases hPlace : place < 32
  · revert place
    decide
  · have hAbove : (0x80808080 : Nat).testBit place = false :=
      Nat.testBit_lt_two_pow (Nat.lt_of_lt_of_le (by decide : 0x80808080 < 2 ^ 32)
        (Nat.pow_le_pow_right Nat.two_pos (Nat.le_of_not_lt hPlace)))
    rw [hAbove, topBits]
    simp only [Bool.false_eq_true, List.mem_cons, List.not_mem_nil, or_false, false_iff]
    omega

/-- A top bit is looked for that is off, and on once one has been subtracted from each byte. -/
theorem hasZeroByte_iff {w : UInt32} :
    hasZeroByte w ↔ ∃ place ∈ topBits,
      (w - 0x01010101).toNat.testBit place = true ∧ w.toNat.testBit place = false := by
  have hNot {place : Nat} (hPlace : place ∈ topBits) : (~~~w).toNat.testBit place = !w.toNat.testBit place := by
    have hLess := w.toNat_lt
    have hSum : UInt32.size - 1 - w.toNat = 2 ^ 32 - (w.toNat + 1) := by
      have : UInt32.size = 2 ^ 32 := rfl
      omega
    have hWord : ∀ place ∈ topBits, place < 32 := by decide
    rw [UInt32.toNat_not, hSum, Nat.testBit_two_pow_sub_succ hLess, decide_eq_true (hWord place hPlace),
      Bool.true_and]
  have hSome : hasZeroByte w ↔ ∃ place,
      ((w - 0x01010101) &&& ~~~w &&& 0x80808080).toNat.testBit place = true := by
    rw [hasZeroByte, bne_iff_ne, ne_eq, ← UInt32.toNat_inj]
    exact ⟨Nat.exists_testBit_of_ne_zero, fun ⟨place, hPlace⟩ hZero => by simp [hZero] at hPlace⟩
  have hTop : (0x80808080 : UInt32).toNat = 0x80808080 := rfl
  rw [hSome]
  refine exists_congr fun place => ?_
  rw [UInt32.toNat_and, UInt32.toNat_and, Nat.testBit_and, Nat.testBit_and, hTop, Bool.and_eq_true,
    testBit_topBits, and_comm]
  refine and_congr_right fun hPlace => ?_
  rw [hNot hPlace, Bool.and_eq_true, Bool.not_eq_true']

/-- A word that is passed over has no zero byte. The lowest zero byte is the one to look at: nothing
is borrowed from it. -/
theorem ne_zero_of_not_hasZeroByte {a b c d : UInt8} (h : hasZeroByte (word a b c d) = false) :
    a ≠ 0 ∧ b ≠ 0 ∧ c ≠ 0 ∧ d ≠ 0 := by
  have hWord := toNat_word a b c d
  have ha := a.toNat_lt
  have hb := b.toNat_lt
  have hc := c.toNat_lt
  have hd := d.toNat_lt
  have hMinus : (word a b c d - 0x01010101).toNat
      = (2 ^ 32 - 0x01010101 + (word a b c d).toNat) % 2 ^ 32 := by
    rw [UInt32.toNat_sub]
    rfl
  have hOnly (place : Nat) (hPlace : place ∈ topBits)
      (hOn : (2 ^ 32 - 0x01010101 + (word a b c d).toNat) % 2 ^ 32 / 2 ^ place % 2 = 1)
      (hOff : (word a b c d).toNat / 2 ^ place % 2 = 0) : False := by
    have hTrue : hasZeroByte (word a b c d) := by
      refine hasZeroByte_iff.mpr ⟨place, hPlace, ?_, ?_⟩
      · rw [hMinus, Nat.testBit_eq_decide_div_mod_eq, hOn]
        rfl
      · rw [Nat.testBit_eq_decide_div_mod_eq, hOff]
        rfl
    rw [h] at hTrue
    contradiction
  have hFirst : a.toNat ≠ 0 := by
    intro hZero
    apply hOnly 7 (by decide) <;> omega
  have hSecond : b.toNat ≠ 0 := by
    intro hZero
    apply hOnly 15 (by decide) <;> omega
  have hThird : c.toNat ≠ 0 := by
    intro hZero
    apply hOnly 23 (by decide) <;> omega
  have hFourth : d.toNat ≠ 0 := by
    intro hZero
    apply hOnly 31 (by decide) <;> omega
  have hByte (byte : UInt8) (hSome : byte.toNat ≠ 0) : byte ≠ 0 := by
    rintro rfl
    exact hSome rfl
  exact ⟨hByte a hFirst, hByte b hSecond, hByte c hThird, hByte d hFourth⟩

/-- If no byte is zero, nothing is borrowed, and no top bit comes on. -/
theorem not_hasZeroByte_of_ne_zero {a b c d : UInt8} (ha : a ≠ 0) (hb : b ≠ 0) (hc : c ≠ 0) (hd : d ≠ 0) :
    hasZeroByte (word a b c d) = false := by
  have hPos (byte : UInt8) (hSome : byte ≠ 0) : 1 ≤ byte.toNat ∧ byte.toNat < 256 :=
    ⟨Nat.pos_of_ne_zero fun hZero => hSome (UInt8.toNat_inj.mp hZero), byte.toNat_lt⟩
  have hFirst := hPos a ha
  have hSecond := hPos b hb
  have hThird := hPos c hc
  have hFourth := hPos d hd
  have hMinus : (word a b c d - 0x01010101).toNat = (a.toNat - 1) + (b.toNat - 1) * 2 ^ 8
      + (c.toNat - 1) * 2 ^ 16 + (d.toNat - 1) * 2 ^ 24 := by
    have hOnes : (0x01010101 : UInt32).toNat = 0x01010101 := rfl
    have hLarge : (0x01010101 : UInt32) ≤ word a b c d := by
      rw [UInt32.le_iff_toNat_le, toNat_word, hOnes]
      omega
    rw [UInt32.toNat_sub_of_le _ _ hLarge, toNat_word, hOnes]
    omega
  rw [← Bool.not_eq_true, hasZeroByte_iff]
  rintro ⟨place, hPlace, hOn, hOff⟩
  rw [hMinus, Nat.testBit_eq_decide_div_mod_eq, decide_eq_true_iff] at hOn
  rw [toNat_word, Nat.testBit_eq_decide_div_mod_eq, decide_eq_false_iff_not] at hOff
  simp only [topBits, List.mem_cons, List.not_mem_nil, or_false] at hPlace
  rcases hPlace with rfl | rfl | rfl | rfl
  · omega
  · omega
  · omega
  · omega

/-- The test is exact: a word that is not passed over has a zero byte. -/
theorem hasZeroByte_word_iff (a b c d : UInt8) :
    hasZeroByte (word a b c d) = false ↔ a ≠ 0 ∧ b ≠ 0 ∧ c ≠ 0 ∧ d ≠ 0 :=
  ⟨ne_zero_of_not_hasZeroByte, fun ⟨ha, hb, hc, hd⟩ => not_hasZeroByte_of_ne_zero ha hb hc hd⟩

end Cadence.Nal.StartCode
