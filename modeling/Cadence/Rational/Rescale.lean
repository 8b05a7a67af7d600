import Cadence.Rational

/-!
Moving a count of ticks from one time base to another. The product is taken exactly and rounded
once, to the nearest whole number, halves away from zero.
-/

namespace Cadence

/-- `num / den` for a positive `den`, rounded to the nearest integer, halves away from zero. -/
def roundDiv (num den : Int) : Int :=
  if 0 ≤ num then (num + den / 2).tdiv den else (num - den / 2).tdiv den

namespace Rational

/-- The exact value of `ticks` counted in `source` and expressed in `target`, as a numerator. -/
def rescaleNum (ticks : Int64) (source target : Rational) : Int :=
  ticks.toInt * source.num.toInt * target.den.toInt

/-- The denominator that belongs to `rescaleNum`. -/
def rescaleDen (source target : Rational) : Int :=
  source.den.toInt * target.num.toInt

/-- Counts in `target` what `ticks` counts in `source`. There is no answer if the divisor is zero or
if the rounded count does not fit 64 bits. -/
def rescale (ticks : Int64) (source target : Rational) : Option Int64 :=
  let num := rescaleNum ticks source target
  let den := rescaleDen source target
  if den = 0 then none
  else
    let rounded := if den < 0 then roundDiv (-num) (-den) else roundDiv num den
    if Int64.minValue.toInt ≤ rounded ∧ rounded ≤ Int64.maxValue.toInt then
      some (Int64.ofInt rounded)
    else none

end Rational

end Cadence
