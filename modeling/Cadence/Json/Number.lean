import Cadence.Json.Basic
import Cadence.Text.Decimal

/-!
Numbers. A number that is used has to be a finite double or a 64-bit integer; in a value that is
skipped it only has to be well formed.
-/

namespace Cadence.Json

/-- The parts of a number as they are written. -/
structure Number where
  negative : Bool
  whole : List Char
  /-- The digits after the point. -/
  fraction : Option (List Char)
  exponent : Option Int
  deriving DecidableEq, Repr

namespace Number

/-- Adds digits to a significand for as long as it fits 64 bits, and gives the digits left over. -/
def accumulate (significand : Nat) : List Char → Nat × List Char
  | [] => (significand, [])
  | digit :: digits =>
    let more := 10 * significand + Decimal.value [digit]
    if more < UInt64.size then accumulate more digits else (significand, digit :: digits)

/-- The number does not exceed the range of doubles. Digits that do not fit the significand are not
looked at. -/
def isFinite (number : Number) : Bool :=
  let fraction := number.fraction.getD []
  let (significand, wholeLeft) := accumulate 0 number.whole
  let (significand, fractionLeft) := accumulate significand fraction
  let places := fraction.length - fractionLeft.length
  let exponent := number.exponent.getD 0 + wholeLeft.length - places
  significand = 0 || exponent ≤ 0 || (exponent ≤ 308 &&
    (Float.ofNat significand * Float.ofScientific 1 false exponent.toNat).isFinite)

/-- The value of a whole number that fits 64 bits. A number that is written with a point or an
exponent is not whole, and neither is minus zero. -/
def integer? (number : Number) : Option Int :=
  match number.fraction, number.exponent with
  | none, none =>
    let value := Decimal.value number.whole
    if number.negative then
      if 0 < value ∧ value ≤ Int64.minValue.toInt.natAbs then some (-Int.ofNat value) else none
    else if value < UInt64.size then some value else none
  | _, _ => none

end Number

namespace Reader

/-- Reads one digit or more. If the text ends before the first one, that is the fault `short`. -/
def digits (short : Fault) : Reader (List Char) := do
  let text ← get
  if text.isEmpty then throw short
  let found := text.takeWhile Char.isDigit
  if found.isEmpty then throw .grammar
  set (text.dropWhile Char.isDigit)
  return found

/-- Reads the digits before the point; zero stands alone. -/
def wholeDigits (short : Fault) : Reader (List Char) := do
  let found ← digits short
  if found.head? = some '0' ∧ found.length ≠ 1 then throw .grammar
  return found

def fractionDigits? (short : Fault) : Reader (Option (List Char)) := do
  if (← next?) ≠ some '.' then return none
  advance
  return some (← digits short)

def exponent? (short : Fault) : Reader (Option Int) := do
  let letter ← next?
  if letter ≠ some 'e' ∧ letter ≠ some 'E' then return none
  advance
  let sign ← next?
  if sign = some '+' ∨ sign = some '-' then advance
  let value := Int.ofNat (Decimal.value (← digits short))
  return some (if sign = some '-' then -value else value)

/-- Reads a number, without asking for its size. -/
def number (short : Fault) : Reader Number := do
  let negative := (← next?) = some '-'
  if negative then advance
  return {
    negative, whole := ← wholeDigits short, fraction := ← fractionDigits? short,
    exponent := ← exponent? short }

end Reader

end Cadence.Json
