import Cadence.Rational
import Cadence.Ticks
import Cadence.Text.Fixed

/-!
Time stamps together with their time base, for people to read.
-/

namespace Cadence

/-- The moment `value` times `timeBase` seconds. -/
structure Timestamp where
  value : Ticks
  timeBase : Rational
  deriving DecidableEq

namespace Timestamp

/-- The value is set and the time base has a denominator. -/
def isValid (t : Timestamp) : Bool :=
  t.value != Ticks.unset && t.timeBase.isValid

/-- Seconds as a double, not a number if the stamp is not valid. -/
def seconds (t : Timestamp) : Float :=
  if t.isValid then t.value.toFloat * t.timeBase.toFloat else 0.0 / 0.0

/-- The count of ticks, with the seconds to three places behind it. -/
def toText (t : Timestamp) : String :=
  if t.isValid then
    String.ofList (Decimal.ofInt t.value.toInt ++ " (".toList ++ Decimal.fixed 3 t.seconds
      ++ "s)".toList)
  else "NOPTS"

instance : ToString Timestamp := ⟨toText⟩

end Timestamp

end Cadence
