import Cadence.Ticks

/-!
Time stamps as integers. As long as a result is representable, sums, differences and quotients are
those of the integers.
-/

namespace Cadence.Ticks

/-- An integer that can be a time stamp. -/
def InRange (x : Int) : Prop :=
  Int64.minValue.toInt ≤ x ∧ x ≤ Int64.maxValue.toInt

instance (x : Int) : Decidable (InRange x) :=
  inferInstanceAs (Decidable (_ ∧ _))

/-- A sum within range is not saturated. -/
theorem toInt_addSat {a b : Ticks} (h : InRange (a.toInt + b.toInt)) :
    (addSat a b).toInt = a.toInt + b.toInt :=
  Int64.toInt_ofIntClamp h.1 h.2

/-- A difference within range is not saturated. -/
theorem toInt_subSat {a b : Ticks} (h : InRange (a.toInt - b.toInt)) :
    (subSat a b).toInt = a.toInt - b.toInt :=
  Int64.toInt_ofIntClamp h.1 h.2

theorem toInt_sub {a b : Ticks} (h : InRange (a.toInt - b.toInt)) : (a - b).toInt = a.toInt - b.toInt := by
  have hFrom : -2 ^ 63 ≤ a.toInt - b.toInt := h.1
  have hTill : a.toInt - b.toInt ≤ 2 ^ 63 - 1 := h.2
  rw [Int64.toInt_sub, Int.bmod_eq_of_le (by omega) (by omega)]

theorem ofInt_sub_toInt (a b : Ticks) : Int64.ofInt (a.toInt - b.toInt) = a - b := by
  rw [Int64.ofInt_sub, Int64.ofInt_toInt, Int64.ofInt_toInt]

/-- Only one quotient is not representable, and its divisor is negative. -/
theorem toInt_div {a b : Ticks} (h : 0 < b) : (a / b).toInt = a.toInt.tdiv b.toInt := by
  refine Int64.toInt_div_of_ne_right a b ?_
  rintro rfl
  exact absurd h (by decide)

/-- A number beyond the range becomes its nearer end. -/
theorem toInt_clamp (x : Int) :
    (clamp x).toInt = max Int64.minValue.toInt (min Int64.maxValue.toInt x) := by
  have hEnds : Int64.minValue.toInt ≤ Int64.maxValue.toInt := by decide
  unfold clamp Int64.ofIntClamp
  split
  case isTrue hFrom =>
    split
    case isTrue hTill =>
      rw [Int64.toInt_ofIntLE]
      omega
    case isFalse => omega
  case isFalse => omega

/-- A long interval is taken for the longest time. -/
theorem toInt_clamp_natCast (interval : Nat) :
    (clamp interval).toInt = min Int64.maxValue.toInt interval := by
  have hLow : Int64.minValue.toInt ≤ min Int64.maxValue.toInt interval := by
    have : Int64.minValue.toInt ≤ 0 := by decide
    exact Int.le_min.mpr ⟨by decide, by omega⟩
  rw [toInt_clamp, Int.max_eq_right hLow]

theorem toInt_clamp_pos {interval : Nat} (h : 1 ≤ interval) : 0 < (clamp interval).toInt := by
  have hMax : 0 < Int64.maxValue.toInt := by decide
  have hEq := toInt_clamp_natCast interval
  omega

theorem clamp_toInt (a : Ticks) : clamp a.toInt = a := by
  apply Int64.toInt_inj.mp
  rw [toInt_clamp]
  have := a.minValue_le_toInt
  have := a.toInt_le
  omega

end Cadence.Ticks
