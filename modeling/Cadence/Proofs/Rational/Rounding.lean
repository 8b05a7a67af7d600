import Mathlib.Data.Rat.Floor
import Mathlib.Tactic.FieldSimp
import Mathlib.Tactic.Linarith
import Mathlib.Tactic.Ring
import Cadence.Proofs.Ticks
import Cadence.Rational.Rescale

/-!
Rounding over the rational numbers. Dividing integers with half of the divisor added or taken away
rounds the exact quotient to the nearest integer, halves away from zero (`roundDiv_eq`), also when
the divisor is odd and its half is cut off. A count of ticks that is moved to another time base is rounded
this way, whenever it fits 64 bits (`rescale_of_den_ne_zero`).
-/

namespace Cadence

/-- The nearest integer, and of two nearest ones the one farther from zero. -/
def roundAway (q : ℚ) : ℤ :=
  if 0 ≤ q then ⌊q + 1 / 2⌋ else ⌈q - 1 / 2⌉

/-- Rounding away from zero is odd. -/
theorem roundAway_neg (q : ℚ) : roundAway (-q) = -roundAway q := by
  unfold roundAway
  rcases lt_trichotomy q 0 with h | rfl | h
  · rw [if_pos (by linarith), if_neg (by linarith), ← Int.floor_neg]
    congr 1
    ring
  · norm_num
  · rw [if_neg (by linarith), if_pos (by linarith), ← Int.ceil_neg]
    congr 1
    ring

/-- No integer is closer to the number, and of two that are as close this is the farther one from zero. -/
structure RoundsTo (q : ℚ) (z : ℤ) : Prop where
  close : |q - z| ≤ 1 / 2
  tie : |q - z| = 1 / 2 → |q| < |(z : ℚ)|

theorem RoundsTo.neg {q : ℚ} {z : ℤ} (h : RoundsTo q z) : RoundsTo (-q) (-z) := by
  have hDistance : |-q - ((-z : ℤ) : ℚ)| = |q - z| := by
    rw [Int.cast_neg, ← neg_sub', abs_neg]
  refine ⟨hDistance ▸ h.close, fun hTie => ?_⟩
  rw [Int.cast_neg, abs_neg, abs_neg]
  exact h.tie (hDistance ▸ hTie)

/-- A number that is not negative is rounded down from a half above it. -/
theorem roundsTo_iff_floor {q : ℚ} (h : 0 ≤ q) {z : ℤ} : RoundsTo q z ↔ z = ⌊q + 1 / 2⌋ := by
  rw [eq_comm, Int.floor_eq_iff]
  constructor
  · rintro ⟨hClose, hTie⟩
    obtain ⟨hFrom, hTill⟩ := abs_le.mp hClose
    refine ⟨by linarith, lt_of_le_of_ne (by linarith) fun hHalf => ?_⟩
    -- The number lies half way above `z`, which is closer to zero.
    have hDistance : q - z = 1 / 2 := by linarith
    have hPos : (0 : ℤ) ≤ z := by
      have : (-1 : ℚ) < z := by linarith
      have : (-1 : ℤ) < z := by exact_mod_cast this
      omega
    have hFar := hTie (by rw [hDistance]; norm_num)
    rw [abs_of_nonneg h, abs_of_nonneg (by exact_mod_cast hPos)] at hFar
    linarith
  · rintro ⟨hFrom, hTill⟩
    refine ⟨abs_le.mpr ⟨by linarith, by linarith⟩, fun hTie => ?_⟩
    rcases (abs_eq (by norm_num)).mp hTie with hAbove | hBelow
    · linarith
    · rw [abs_of_nonneg h, abs_of_nonneg (by linarith)]
      linarith

/-- There is one integer that a number is rounded to. -/
theorem roundsTo_iff {q : ℚ} {z : ℤ} : RoundsTo q z ↔ z = roundAway q := by
  rcases le_or_gt 0 q with h | h
  · rw [roundsTo_iff_floor h, roundAway, if_pos h]
  · have hNeg : RoundsTo q z ↔ RoundsTo (-q) (-z) :=
      ⟨RoundsTo.neg, fun hOpposite => by simpa using hOpposite.neg⟩
    have hRound : roundAway (-q) = ⌊-q + 1 / 2⌋ := if_pos (by linarith)
    rw [hNeg, roundsTo_iff_floor (by linarith), ← hRound, roundAway_neg, neg_inj]

/-- Rounding keeps the order. -/
theorem roundAway_mono {p q : ℚ} (h : p ≤ q) : roundAway p ≤ roundAway q := by
  unfold roundAway
  split
  case isTrue hPos =>
    rw [if_pos (by linarith)]
    exact Int.floor_le_floor (by linarith)
  case isFalse hNeg =>
    split
    case isTrue hPos =>
      have hBelow : ⌈p - 1 / 2⌉ ≤ 0 := Int.ceil_le.mpr (by push_cast; linarith)
      have hAbove : 0 ≤ ⌊q + 1 / 2⌋ := Int.floor_nonneg.mpr (by linarith)
      exact hBelow.trans hAbove
    case isFalse => exact Int.ceil_le_ceil (by linarith)

theorem roundDiv_neg (num : ℤ) {den : ℤ} (h : 0 < den) :
    roundDiv (-num) den = -roundDiv num den := by
  unfold roundDiv
  rcases lt_trichotomy num 0 with hNum | rfl | hNum
  · rw [if_pos (by omega), if_neg (by omega), ← Int.neg_tdiv]
    congr 1
    omega
  · rw [neg_zero, if_pos le_rfl, zero_add, Int.tdiv_eq_zero_of_lt (by omega) (by omega), neg_zero]
  · rw [if_neg (by omega), if_pos (by omega), ← Int.neg_tdiv]
    congr 1
    omega

/-- Cutting off the half of an odd divisor does no harm: the quotient is never half way then. -/
theorem roundDiv_eq_floor {num den : ℤ} (hNum : 0 ≤ num) (hDen : 0 < den) :
    roundDiv num den = ⌊(num / den + 1 / 2 : ℚ)⌋ := by
  have hDiv : roundDiv num den = (num + den / 2) / den := by
    rw [roundDiv, if_pos hNum, Int.tdiv_eq_ediv_of_nonneg (by omega)]
  have hLower : roundDiv num den * den ≤ num + den / 2 := by
    rw [hDiv]
    exact Int.ediv_mul_le _ hDen.ne'
  have hUpper : num + den / 2 < (roundDiv num den + 1) * den := by
    rw [hDiv]
    exact Int.lt_ediv_add_one_mul_self _ hDen
  have hHalf : 2 * (den / 2) ≤ den ∧ den < 2 * (den / 2) + 2 := by omega
  have hLowerTwice : 2 * (roundDiv num den * den) ≤ 2 * num + den := by omega
  have hUpperTwice : 2 * num + den < 2 * ((roundDiv num den + 1) * den) := by omega
  have hPos : (0 : ℚ) < den := by exact_mod_cast hDen
  have hSum : (num / den + 1 / 2 : ℚ) = (2 * num + den) / (2 * den) := by
    field_simp
  symm
  rw [Int.floor_eq_iff, hSum, le_div_iff₀ (by linarith), div_lt_iff₀ (by linarith)]
  constructor
  · have : (2 * (roundDiv num den * den) : ℚ) ≤ 2 * num + den := by exact_mod_cast hLowerTwice
    linarith
  · have : (2 * num + den : ℚ) < 2 * ((roundDiv num den + 1) * den) := by
      exact_mod_cast hUpperTwice
    linarith

/-- Division of integers as it is done here is rounding of the exact quotient. -/
theorem roundDiv_eq (num : ℤ) {den : ℤ} (h : 0 < den) :
    roundDiv num den = roundAway (num / den) := by
  have hPos : (0 : ℚ) < den := by exact_mod_cast h
  rcases le_or_gt 0 num with hNum | hNum
  · have hQuotient : (0 : ℚ) ≤ num / den := div_nonneg (by exact_mod_cast hNum) hPos.le
    rw [roundDiv_eq_floor hNum h, roundAway, if_pos hQuotient]
  · have hNeg : (0 : ℤ) ≤ -num := by omega
    have hQuotient : (0 : ℚ) ≤ (-num : ℤ) / den := div_nonneg (by exact_mod_cast hNeg) hPos.le
    have hRound : roundDiv (-num) den = roundAway ((-num : ℤ) / den) := by
      rw [roundDiv_eq_floor hNeg h, roundAway, if_pos hQuotient]
    rw [roundDiv_neg num h, Int.cast_neg, neg_div, roundAway_neg] at hRound
    exact neg_inj.mp hRound

namespace Rational

variable {ticks : Int64} {source target : Rational}

/-- Counting in another time base rounds the exact value, whatever the signs of the parts. -/
theorem rescale_of_den_ne_zero (h : rescaleDen source target ≠ 0) (ticks : Int64) :
    rescale ticks source target
      = (let rounded := roundAway (rescaleNum ticks source target / rescaleDen source target)
        if Ticks.InRange rounded then some (Int64.ofInt rounded) else none) := by
  have hRounded : (if rescaleDen source target < 0
        then roundDiv (-rescaleNum ticks source target) (-rescaleDen source target)
        else roundDiv (rescaleNum ticks source target) (rescaleDen source target))
      = roundAway (rescaleNum ticks source target / rescaleDen source target) := by
    split
    · rw [roundDiv_eq _ (by omega), Int.cast_neg, Int.cast_neg, neg_div_neg_eq]
    · rw [roundDiv_eq _ (by omega)]
  unfold rescale
  dsimp only
  rw [if_neg h, hRounded]
  rfl

theorem rescale_of_den_eq_zero (h : rescaleDen source target = 0) (ticks : Int64) :
    rescale ticks source target = none :=
  if_pos h

theorem rescale_eq_some {rounded : Int64} (h : rescale ticks source target = some rounded) :
    rounded.toInt = roundAway (rescaleNum ticks source target / rescaleDen source target) := by
  by_cases hDen : rescaleDen source target = 0
  · cases (rescale_of_den_eq_zero hDen ticks).symm.trans h
  · rw [rescale_of_den_ne_zero hDen] at h
    dsimp only at h
    split at h
    case isTrue hRange =>
      cases h
      exact Int64.toInt_ofInt_of_le hRange.1 (Int.lt_of_le_of_lt hRange.2 (by decide))
    case isFalse => cases h

/-- The quotient of the parts, and zero if there is none. -/
def value (r : Rational) : ℚ :=
  r.num.toInt / r.den.toInt

theorem rescaleNum_div_rescaleDen (ticks : Int64) (source target : Rational) :
    (rescaleNum ticks source target / rescaleDen source target : ℚ)
      = ticks.toInt * (source.value / target.value) := by
  rw [rescaleNum, rescaleDen, value, value, div_div_div_eq, ← mul_div_assoc, ← mul_assoc]
  push_cast
  rfl

theorem rescaleDen_eq_zero_iff : rescaleDen source target = 0 ↔ source.den = 0 ∨ target.num = 0 := by
  rw [rescaleDen, mul_eq_zero, ← Int32.toInt_zero, Int32.toInt_inj, Int32.toInt_inj]

/-- A count that is given is the exact value, rounded. -/
theorem toInt_of_rescale {count : Int64} (h : rescale ticks source target = some count) :
    count.toInt = roundAway (ticks.toInt * (source.value / target.value)) := by
  rw [rescale_eq_some h, rescaleNum_div_rescaleDen]

/-- Counting backwards gives the opposite count. -/
theorem rescale_neg {opposite count other : Int64} (hOpposite : opposite.toInt = -ticks.toInt)
    (hCount : rescale ticks source target = some count)
    (hOther : rescale opposite source target = some other) : other.toInt = -count.toInt := by
  rw [toInt_of_rescale hOther, toInt_of_rescale hCount, hOpposite, Int.cast_neg, neg_mul, roundAway_neg]

/-- Between time bases of one sign, a later time is not counted earlier. -/
theorem rescale_mono {later count other : Int64} (hPos : 0 < source.value / target.value)
    (hLe : ticks.toInt ≤ later.toInt) (hCount : rescale ticks source target = some count)
    (hOther : rescale later source target = some other) : count.toInt ≤ other.toInt := by
  rw [toInt_of_rescale hOther, toInt_of_rescale hCount]
  exact roundAway_mono (mul_le_mul_of_nonneg_right (by exact_mod_cast hLe) hPos.le)

end Rational

end Cadence
