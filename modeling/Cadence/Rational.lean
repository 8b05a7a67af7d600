import Cadence.Text.Decimal

/-!
Fractions of two 32-bit integers, for time bases and frame rates. Nothing is reduced or normalised:
a fraction keeps the two parts it was given, zero denominators included.
-/

namespace Cadence

/-- `num / den`, such as the time base 1/90000 or the frame rate 30000/1001. -/
structure Rational where
  num : Int32
  den : Int32
  deriving DecidableEq, Repr

namespace Rational

/-- No value has been set. -/
def undefined : Rational := ⟨0, 0⟩

/-- The denominator is not zero. -/
def isValid (r : Rational) : Bool :=
  r.den != 0

/-- Neither part is zero. -/
def isNonZero (r : Rational) : Bool :=
  r.num != 0 && r.den != 0

/-- Exchanges the parts: a frame rate becomes the time between frames. -/
def invert (r : Rational) : Rational :=
  ⟨r.den, r.num⟩

/-- The quotient of the parts, and not a number if the denominator is zero. -/
def toFloat (r : Rational) : Float :=
  if r.den = 0 then 0.0 / 0.0 else r.num.toFloat / r.den.toFloat

/-- Both parts in decimal, with a slash between them. -/
def toChars (r : Rational) : List Char :=
  Decimal.ofInt r.num.toInt ++ '/' :: Decimal.ofInt r.den.toInt

def toText (r : Rational) : String :=
  String.ofList r.toChars

instance : ToString Rational := ⟨toText⟩

end Rational

end Cadence
