import Cadence.Fault
import Cadence.Text.Blank

/-!
Reading fractions: two whole numbers with a slash between them, or one number by itself. White space
around either number is ignored.
-/

namespace Cadence.Rational

/-- A whole number that fits 32 bits, with white space around it. -/
def part? (text : List Char) : Option Int32 :=
  (Decimal.int? Int32.minValue.toInt Int32.maxValue.toInt (Text.trim text)).map Int32.ofInt

/-- Reads a fraction; what follows the first slash is the denominator. -/
def ofChars? (text : List Char) : Option Rational :=
  match text.dropWhile (· != '/') with
  | [] => do return ⟨← part? text, 1⟩
  | _ :: den => do return ⟨← part? (text.takeWhile (· != '/')), ← part? den⟩

def ofText (text : String) : Except Fault Rational :=
  match ofChars? text.toList with
  | some r => .ok r
  | none => .error (.ratioText text)

end Cadence.Rational
