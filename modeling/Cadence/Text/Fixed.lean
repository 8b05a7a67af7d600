import Cadence.Text.Decimal

/-!
Double-precision numbers with a fixed count of decimal places. The exact value of the double is
rounded once; a tie goes to the even neighbour, and the sign is written for every negative number,
zero included.
-/

namespace Cadence.Decimal

/-- `num / den` rounded to the nearest integer, a tie to the even one. -/
def roundHalfEven (num den : Nat) : Nat :=
  let quotient := num / den
  let rest := 2 * (num % den)
  if rest > den ∨ (rest = den ∧ quotient % 2 = 1) then quotient + 1 else quotient

/-- The number of bits that a double stores of its significand. -/
def fractionBits : Nat := 52

/-- The nearest count of units of ten to the minus `places` in a finite double, without its sign. -/
def scaled (places : Nat) (x : Float) : Nat :=
  let bits := x.toBits.toNat
  let exponent := (bits >>> fractionBits) % (1 <<< 11)
  let fraction := bits % (1 <<< fractionBits)
  let mantissa := if exponent = 0 then fraction else (1 <<< fractionBits) + fraction
  let shift := max exponent 1
  let units := mantissa * scale places
  if shift ≥ 1075 then units <<< (shift - 1075) else roundHalfEven units (1 <<< (1075 - shift))

/-- Text of a double with `places` decimal places. -/
def fixed (places : Nat) (x : Float) : List Char :=
  let sign := if x.toBits ≥ 0x8000000000000000 then ['-'] else []
  if x.isNaN then "NaN".toList
  else if x.isInf then sign ++ "inf".toList
  else
    let units := scaled places x
    sign ++ ofNat (units / scale places) ++ '.' :: padded places (units % scale places)

end Cadence.Decimal
