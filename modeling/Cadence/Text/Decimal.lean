/-!
Whole numbers as decimal text over characters: the digits that `ofNat` and `ofInt` write, and readers
that take one optional sign, ASCII digits only, and a range. Single hexadecimal digits are read too.
-/

namespace Cadence

/-- The value of a hexadecimal digit, with letters in either case. -/
def Text.hexDigit? (c : Char) : Option Nat :=
  if c.isDigit then some (c.toNat - '0'.toNat)
  else if 'a' ≤ c ∧ c ≤ 'f' then some (c.toNat - 'a'.toNat + 10)
  else if 'A' ≤ c ∧ c ≤ 'F' then some (c.toNat - 'A'.toNat + 10)
  else none

namespace Decimal

/-- The digit for a value below ten. -/
def digit (value : Nat) : Char :=
  Char.ofNat ('0'.toNat + value)

/-- The digits of a number, without leading zeros. -/
def ofNat (n : Nat) : List Char :=
  if n < 10 then [digit n] else ofNat (n / 10) ++ [digit (n % 10)]

/-- A minus sign is written for negative numbers only. -/
def ofInt : Int → List Char
  | .ofNat n => ofNat n
  | .negSucc n => '-' :: ofNat (n + 1)

/-- Digits with zeros in front, up to at least `width` characters. -/
def padded (width n : Nat) : List Char :=
  let digits := ofNat n
  List.replicate (width - digits.length) '0' ++ digits

/-- The value of a one with `places` zeros behind it. -/
def scale : (places : Nat) → Nat
  | 0 => 1
  | places + 1 => 10 * scale places

/-- The number that a run of digits writes. -/
def value (digits : List Char) : Nat :=
  digits.foldl (fun n c => 10 * n + (c.toNat - '0'.toNat)) 0

/-- Reads a run of at least one ASCII digit. -/
def digits? (text : List Char) : Option Nat :=
  if !text.isEmpty && text.all Char.isDigit then some (value text) else none

/-- Reads a number of at most `largest`; a plus sign may stand in front. -/
def nat? (largest : Nat) (text : List Char) : Option Nat :=
  let number := match text with
    | '+' :: rest => digits? rest
    | _ => digits? text
  number.filter (· ≤ largest)

/-- Reads a number from `least` to `largest`; one plus or minus sign may stand in front. -/
def int? (least largest : Int) (text : List Char) : Option Int :=
  let number : Option Int := match text with
    | '+' :: rest => (digits? rest).map Int.ofNat
    | '-' :: rest => (digits? rest).map fun n => -Int.ofNat n
    | _ => (digits? text).map Int.ofNat
  number.filter fun n => least ≤ n && n ≤ largest

end Decimal

end Cadence
