import Cadence.Text.Blank
import Cadence.Text.Decimal

/-!
Days of the Gregorian calendar, which is continued to all years of a fixed range. Days are compared
and counted through their number; their text is year, month and day with hyphens between them.
-/

namespace Cadence

namespace Date

def isLeap (year : Int) : Bool :=
  year % 4 == 0 && (year % 100 != 0 || year % 400 == 0)

def daysInMonth (year : Int) (month : Nat) : Nat :=
  match month with
  | 2 => if isLeap year then 29 else 28
  | 4 | 6 | 9 | 11 => 30
  | _ => 31

/-- The first year of the calendar. -/
def firstYear : Int := -262143

/-- The last year of the calendar. -/
def lastYear : Int := 262142

/-- Year, month and day name a day of the calendar. -/
def isDay (year : Int) (month day : Nat) : Bool :=
  firstYear ≤ year && year ≤ lastYear && 1 ≤ month && month ≤ 12 && 1 ≤ day
    && day ≤ daysInMonth year month

end Date

/-- A day. -/
structure Date where
  year : Int
  month : Nat
  day : Nat
  valid : Date.isDay year month day
  deriving DecidableEq, Repr

namespace Date

instance : Inhabited Date := ⟨⟨1, 1, 1, by decide⟩⟩

/-- The day with the given parts, if there is one. -/
def ofParts? (year : Int) (month day : Nat) : Option Date :=
  if h : Date.isDay year month day then some ⟨year, month, day, h⟩ else none

/-- The number of days from the start of year 1 to the start of a year, negative before year 1. -/
def daysBeforeYear (year : Int) : Int :=
  let past := year - 1
  365 * past + past / 4 - past / 100 + past / 400

/-- The number of days of a year before a month. -/
def daysBeforeMonth (year : Int) : (month : Nat) → Nat
  | 0 | 1 => 0
  | month + 2 => daysBeforeMonth year (month + 1) + daysInMonth year (month + 1)

/-- The number of days since the first day of year 1. -/
def dayNumber (date : Date) : Int :=
  daysBeforeYear date.year + daysBeforeMonth date.year date.month + (date.day - 1 : Nat)

/-- The number of the first day of the calendar. -/
def firstDay : Int :=
  daysBeforeYear firstYear

/-- Four digits; years that need a sign or more digits have a sign. -/
def yearText (year : Int) : List Char :=
  let digits := Decimal.padded 4 year.natAbs
  if year < 0 then '-' :: digits else if year > 9999 then '+' :: digits else digits

def toChars (date : Date) : List Char :=
  yearText date.year ++ '-' :: Decimal.padded 2 date.month ++ '-' :: Decimal.padded 2 date.day

def toText (date : Date) : String :=
  String.ofList date.toChars

/-- Reads a number of at most `most` digits, and gives the text behind it. -/
def takeNumber (most : Nat) (text : List Char) : Option (Nat × List Char) :=
  let digits := (text.take most).takeWhile Char.isDigit
  if digits.isEmpty then none else some (Decimal.value digits, text.drop digits.length)

/-- Reads a year: up to four digits, or a sign and any number of digits. White space may stand in
front. -/
def takeYear (text : List Char) : Option (Int × List Char) :=
  match Text.trimStart text with
  | '-' :: rest => (takeNumber rest.length rest).map fun (n, rest) => (-Int.ofNat n, rest)
  | '+' :: rest => (takeNumber rest.length rest).map fun (n, rest) => (Int.ofNat n, rest)
  | rest => (takeNumber 4 rest).map fun (n, rest) => (Int.ofNat n, rest)

/-- Reads a month or a day after a hyphen. White space may stand between. -/
def takePart : List Char → Option (Nat × List Char)
  | '-' :: rest => takeNumber 2 (Text.trimStart rest)
  | _ => none

/-- Reads a date. -/
def ofChars? (text : List Char) : Option Date := do
  let (year, rest) ← takeYear text
  let (month, rest) ← takePart rest
  let (day, rest) ← takePart rest
  if rest.isEmpty then ofParts? year month day else none

end Date

end Cadence
