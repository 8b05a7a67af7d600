import Cadence.Text.Decimal

/-!
Real numbers as decimal text: digits with a point and an exponent, or the name of a value that is no
number of digits.
-/

namespace Cadence.Text

def dropSign : List Char → List Char
  | '+' :: text | '-' :: text => text
  | text => text

/-- The text is an exponent or empty. -/
def isExponent : List Char → Bool
  | [] => true
  | c :: text => (c == 'e' || c == 'E') && (Decimal.digits? (dropSign text)).isSome

/-- The text is a number without a sign. A digit has to stand before or behind the point. -/
def isUnsignedReal (text : List Char) : Bool :=
  let whole := text.takeWhile Char.isDigit
  let (fraction, rest) := match text.drop whole.length with
    | '.' :: text => (text.takeWhile Char.isDigit, text.dropWhile Char.isDigit)
    | text => ([], text)
  !(whole.isEmpty && fraction.isEmpty) && isExponent rest

/-- Names of values, in lower case. -/
def realNames : List String := ["inf", "infinity", "nan"]

/-- The text is a real number or the name of one, in any case. -/
def isReal (text : List Char) : Bool :=
  let text := dropSign text
  isUnsignedReal text || realNames.contains (String.ofList (text.map Char.toLower))

end Cadence.Text
