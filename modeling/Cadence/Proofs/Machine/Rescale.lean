import Cadence.Proofs.Machine.Words
import Cadence.Proofs.Rational.Rounding

/-!
Moving a count of ticks to another time base on a machine. All products are formed in words of 128 bits,
which have room for them (`rescale_eq`), and the exact quotient is rounded once (`rescale_exact`). There is
no answer if the divisor is zero or the rounded count does not fit 64 bits. A target whose denominator is
zero is no reason to refuse: in it, every count is zero.
-/

namespace Cadence

namespace Machine

/-- A quotient whose fraction is cut off. -/
def quotient (bits : Nat) (a b : Int) : Machine Int :=
  if b = 0 then stop .division else fitSigned bits (a.tdiv b)

/-- A quotient with a positive divisor, rounded to the nearest integer, halves away from zero. -/
def roundedQuotient (bits : Nat) (num den : Int) : Machine Int := do
  let half ← quotient bits den 2
  if 0 ≤ num then quotient bits (← fitSigned bits (num + half)) den
  else quotient bits (← fitSigned bits (num - half)) den

def rescale (ticks : Int64) (source target : Rational) : Machine (Option Int64) := do
  let num ← fitSigned 128 ((← fitSigned 128 (ticks.toInt * source.num.toInt)) * target.den.toInt)
  let den ← fitSigned 128 (source.den.toInt * target.num.toInt)
  if den = 0 then return none
  let rounded ←
    if den < 0 then do roundedQuotient 128 (← fitSigned 128 (-num)) (← fitSigned 128 (-den))
    else roundedQuotient 128 num den
  return if Ticks.InRange rounded then some (Int64.ofInt rounded) else none

section Room

variable {bits : Nat} {a b num den : Int}

theorem fitSigned_of_abs_lt (h : |a| < 2 ^ (bits - 1)) : fitSigned bits a = .ok a := by
  obtain ⟨hFrom, hTill⟩ := abs_lt.mp h
  exact fitSigned_of_mem hFrom.le hTill

/-- A quotient is not larger than what is divided. -/
theorem quotient_of_abs_lt (hDivisor : b ≠ 0) (h : |a| < 2 ^ (bits - 1)) :
    quotient bits a b = .ok (a.tdiv b) := by
  have hLe : |a.tdiv b| ≤ |a| := by
    rw [Int.abs_eq_natAbs, Int.abs_eq_natAbs]
    exact_mod_cast Int.natAbs_tdiv_le_natAbs a b
  rw [quotient, if_neg hDivisor, fitSigned_of_abs_lt (hLe.trans_lt h)]

/-- Half of the divisor has room beside what is divided. -/
theorem roundedQuotient_eq (hDen : 0 < den) (h : |num| + den < 2 ^ (bits - 1)) :
    roundedQuotient bits num den = .ok (roundDiv num den) := by
  have hHalf : den.tdiv 2 = den / 2 := Int.tdiv_eq_ediv_of_nonneg hDen.le
  have hNum := abs_nonneg num
  have hQuotient := @quotient_of_abs_lt bits den 2 (by decide) (by rw [abs_of_pos hDen]; omega)
  rw [roundedQuotient, hQuotient, ok_bind, hHalf, roundDiv]
  split
  case isTrue hPos =>
    have hSum : |num + den / 2| < 2 ^ (bits - 1) := by
      rw [abs_of_nonneg hPos] at h
      rw [abs_of_nonneg (by omega)]
      omega
    rw [fitSigned_of_abs_lt hSum, ok_bind, quotient_of_abs_lt hDen.ne' hSum]
  case isFalse hNeg =>
    have hDifference : |num - den / 2| < 2 ^ (bits - 1) := by
      rw [abs_of_neg (by omega)] at h
      rw [abs_of_neg (by omega)]
      omega
    rw [fitSigned_of_abs_lt hDifference, ok_bind, quotient_of_abs_lt hDen.ne' hDifference]

theorem abs_toInt32_le (part : Int32) : |part.toInt| ≤ 2 ^ 31 := by
  have := part.minValue_le_toInt
  have := part.toInt_lt
  exact abs_le.mpr ⟨by assumption, by omega⟩

theorem abs_toInt64_le (ticks : Int64) : |ticks.toInt| ≤ 2 ^ 63 := by
  have := ticks.minValue_le_toInt
  have := ticks.toInt_lt
  exact abs_le.mpr ⟨by assumption, by omega⟩

end Room

/-- Words of 128 bits have room for every number on the way. -/
theorem rescale_eq (ticks : Int64) (source target : Rational) :
    rescale ticks source target = .ok (Rational.rescale ticks source target) := by
  have hProduct : |ticks.toInt * source.num.toInt| ≤ 2 ^ 63 * 2 ^ 31 := by
    rw [abs_mul]
    exact mul_le_mul (abs_toInt64_le ticks) (abs_toInt32_le _) (abs_nonneg _) (by positivity)
  have hNum : |Rational.rescaleNum ticks source target| ≤ 2 ^ 63 * 2 ^ 31 * 2 ^ 31 := by
    rw [Rational.rescaleNum, abs_mul]
    exact mul_le_mul hProduct (abs_toInt32_le _) (abs_nonneg _) (by positivity)
  have hDen : |Rational.rescaleDen source target| ≤ 2 ^ 31 * 2 ^ 31 := by
    rw [Rational.rescaleDen, abs_mul]
    exact mul_le_mul (abs_toInt32_le _) (abs_toInt32_le _) (abs_nonneg _) (by positivity)
  have hNumWord : fitSigned 128 (ticks.toInt * source.num.toInt * target.den.toInt)
      = .ok (Rational.rescaleNum ticks source target) :=
    fitSigned_of_abs_lt (hNum.trans_lt (by decide))
  have hDenWord : fitSigned 128 (source.den.toInt * target.num.toInt)
      = .ok (Rational.rescaleDen source target) :=
    fitSigned_of_abs_lt (hDen.trans_lt (by decide))
  rw [rescale, fitSigned_of_abs_lt (hProduct.trans_lt (by decide)), ok_bind, hNumWord, ok_bind, hDenWord,
    ok_bind, Rational.rescale]
  generalize Rational.rescaleNum ticks source target = num at hNum
  generalize Rational.rescaleDen source target = den at hDen
  dsimp only
  by_cases hZero : den = 0
  · rw [if_pos hZero, if_pos hZero]
    rfl
  · rw [if_neg hZero, if_neg hZero]
    split
    case isTrue hNeg =>
      have hNumNeg : fitSigned 128 (-num) = .ok (-num) :=
        fitSigned_of_abs_lt (by rw [abs_neg]; exact hNum.trans_lt (by decide))
      have hDenNeg : fitSigned 128 (-den) = .ok (-den) :=
        fitSigned_of_abs_lt (by rw [abs_neg]; exact hDen.trans_lt (by decide))
      have hRoom : |(-num)| + -den < 2 ^ (128 - 1) := by
        rw [abs_neg, ← abs_of_neg hNeg]
        exact (add_le_add hNum hDen).trans_lt (by decide)
      rw [hNumNeg, ok_bind, hDenNeg, ok_bind, roundedQuotient_eq (by omega) hRoom, ok_bind]
      rfl
    case isFalse hPos =>
      have hRoom : |num| + den < 2 ^ (128 - 1) :=
        (add_le_add hNum (le_of_abs_le hDen)).trans_lt (by decide)
      rw [roundedQuotient_eq (by omega) hRoom, ok_bind]
      rfl

/-- No operation leaves its word. Without a divisor there is no answer. With one, the answer is the integer
that the exact value is rounded to, halves away from zero, if that fits 64 bits, and it is zero in a target
whose denominator is zero. So the opposite time has the opposite count, and counting keeps the order. -/
theorem rescale_exact (ticks : Int64) (source target : Rational) :
    rescale ticks source target = .ok (Rational.rescale ticks source target) ∧
    (source.den = 0 ∨ target.num = 0 → Rational.rescale ticks source target = none) ∧
    (source.den ≠ 0 → target.num ≠ 0 → target.den = 0 → Rational.rescale ticks source target = some 0) ∧
    (source.den ≠ 0 → target.num ≠ 0 → target.den ≠ 0 →
      ∃ rounded : ℤ,
        (∀ z, RoundsTo (ticks.toInt * (source.value / target.value)) z ↔ z = rounded) ∧
        Rational.rescale ticks source target
          = if Ticks.InRange rounded then some (Int64.ofInt rounded) else none) ∧
    (∀ opposite : Int64, opposite.toInt = -ticks.toInt → ∀ count other,
      Rational.rescale ticks source target = some count →
      Rational.rescale opposite source target = some other → other.toInt = -count.toInt) ∧
    (0 < source.value / target.value → ∀ later : Int64, ticks.toInt ≤ later.toInt → ∀ count other,
      Rational.rescale ticks source target = some count →
      Rational.rescale later source target = some other → count.toInt ≤ other.toInt) := by
  have hDivisor (hSource : source.den ≠ 0) (hTarget : target.num ≠ 0) :
      Rational.rescale ticks source target
        = if Ticks.InRange (roundAway (ticks.toInt * (source.value / target.value))) then
            some (Int64.ofInt (roundAway (ticks.toInt * (source.value / target.value))))
          else none := by
    have hDen : Rational.rescaleDen source target ≠ 0 := fun h =>
      (Rational.rescaleDen_eq_zero_iff.mp h).elim hSource hTarget
    rw [Rational.rescale_of_den_ne_zero hDen, Rational.rescaleNum_div_rescaleDen]
  refine ⟨rescale_eq ticks source target, fun h => ?_, fun hSource hTarget hZero => ?_,
    fun hSource hTarget _ => ⟨_, fun _ => roundsTo_iff, hDivisor hSource hTarget⟩,
    fun _ hOpposite _ _ hCount hOther => Rational.rescale_neg hOpposite hCount hOther,
    fun hPos _ hLe _ _ hCount hOther => Rational.rescale_mono hPos hLe hCount hOther⟩
  · exact Rational.rescale_of_den_eq_zero (Rational.rescaleDen_eq_zero_iff.mpr h) ticks
  · have hValue : source.value / target.value = 0 := by
      rw [Rational.value, Rational.value, hZero, Int32.toInt_zero, Int.cast_zero, div_zero, div_zero]
    have hRound : roundAway 0 = 0 := by norm_num [roundAway]
    rw [hDivisor hSource hTarget, hValue, mul_zero, hRound, if_pos (by decide)]
    rfl

/-- Half a second is rounded away from zero on both sides of zero. -/
theorem rescale_exact_samples :
    Rational.rescale 1 ⟨1, 0⟩ ⟨1, 1000⟩ = none ∧
    Rational.rescale 1 ⟨1, 1⟩ ⟨1, 0⟩ = some 0 ∧
    rescale 1 ⟨1, 2⟩ ⟨1, 1⟩ = .ok (some 1) ∧ RoundsTo (1 / 2) 1 ∧
    (∀ other, Rational.rescale (-1) ⟨1, 2⟩ ⟨1, 1⟩ = some other → other.toInt = -1) ∧
    (∀ other, Rational.rescale 3 ⟨1, 2⟩ ⟨1, 1⟩ = some other → 1 ≤ other.toInt) := by
  have hUnset := (rescale_exact 1 ⟨1, 0⟩ ⟨1, 1000⟩).2.1 (.inl rfl)
  have hZero := (rescale_exact 1 ⟨1, 1⟩ ⟨1, 0⟩).2.2.1 (by decide) (by decide) rfl
  obtain ⟨hMachine, -, -, hRounds, hNeg, hMono⟩ := rescale_exact 1 ⟨1, 2⟩ ⟨1, 1⟩
  obtain ⟨rounded, hRounds, hRescale⟩ := hRounds (by decide) (by decide) (by decide)
  have hRatio : (⟨1, 2⟩ : Rational).value / (⟨1, 1⟩ : Rational).value = 1 / 2 := by
    change ((1 : ℤ) / (2 : ℤ) / ((1 : ℤ) / (1 : ℤ)) : ℚ) = 1 / 2
    norm_num
  have hOne : RoundsTo (1 / 2) 1 := ⟨by norm_num, by norm_num⟩
  have hTicks : ((1 : Int64).toInt : ℚ) = 1 := Int.cast_one
  rw [hTicks, one_mul, hRatio] at hRounds
  rw [← (hRounds 1).mp hOne] at hRescale
  have hSome : Rational.rescale 1 ⟨1, 2⟩ ⟨1, 1⟩ = some 1 := hRescale
  rw [hSome] at hMachine
  exact ⟨hUnset, hZero, hMachine, hOne, fun other => hNeg (-1) (by decide) 1 other hSome,
    fun other => hMono (by rw [hRatio]; norm_num) 3 (by decide) 1 other hSome⟩

/-- A time base whose denominator is zero is not valid, and yet an answer is given in it. -/
theorem rescale_zeroDenominator :
    Rational.isValid ⟨1, 0⟩ = false ∧ Rational.rescale 1 ⟨1, 1⟩ ⟨1, 0⟩ = some 0 := by
  decide

end Machine

end Cadence
