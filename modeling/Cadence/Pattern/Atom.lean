import Cadence.Pattern.Reader
import Cadence.Text.Decimal

/-!
The smallest parts of a pattern: characters, escapes and what they stand for. There are no tables of
Unicode behind a pattern, so what would need them cannot be used; and a pattern matches text, so it
cannot match single bytes beyond ASCII.
-/

namespace Cadence.Pattern

inductive Atom
  /-- A character, which may have been written as the value of a byte. -/
  | literal (char : Char) (isByte : Bool)
  /-- Digits, white space or word characters, or all others. -/
  | kind (negated : Bool)
  /-- A place at the start or end of the text or of a line. -/
  | boundary
  /-- A place at the edge of a word or within one. -/
  | wordBoundary

def isAscii (c : Char) : Bool :=
  c.toNat < 0x80

namespace Atom

/-- The atom can be used by itself. -/
def isUsable (mode : Mode) : Atom → Bool
  | literal c isByte => if mode.unicode then !mode.caseless else isAscii c || !isByte
  | kind negated => !mode.unicode && !negated
  | boundary => true
  | wordBoundary => !mode.unicode

/-- The atom can be used in a set of characters. -/
def isMember (mode : Mode) : Atom → Bool
  | literal c _ => if mode.unicode then !mode.caseless else isAscii c
  | kind negated => !mode.unicode && !negated
  | boundary | wordBoundary => false

end Atom

/-- Reads `count` hexadecimal digits behind the digits of `value`. -/
def hexDigits (mode : Mode) : (count value : Nat) → Reader Nat
  | 0, value => pure value
  | count + 1, value => do
    let digit ← Text.hexDigit? (← next)
    skipBlanks mode
    hexDigits mode count (16 * value + digit)

/-- Reads the number of a character in `count` hexadecimal digits. -/
def hexChar (mode : Mode) (count : Nat) : Reader Char := do
  skipBlanks mode
  let value ← hexDigits mode count 0
  require value.isValidChar
  return Char.ofNat value

/-- What a letter or sign behind a backslash stands for, except for those with digits behind them. -/
def ofEscape? (c : Char) : Option Atom :=
  match c with
  | 'd' | 's' | 'w' => some (.kind false)
  | 'D' | 'S' | 'W' => some (.kind true)
  | 'A' | 'z' => some .boundary
  | 'b' | 'B' | '<' | '>' => some .wordBoundary
  | 'a' => some (.literal '\x07' false)
  | 'f' => some (.literal '\x0c' false)
  | 'n' => some (.literal '\n' false)
  | 'r' => some (.literal '\r' false)
  | 't' => some (.literal '\t' false)
  | 'v' => some (.literal '\x0b' false)
  | _ => if isAscii c && !c.isAlphanum then some (.literal c false) else none

/-- Reads what stands behind a backslash. -/
def escape (mode : Mode) : Reader Atom := do
  match ← next with
  | 'x' => return .literal (← hexChar mode 2) true
  | 'u' => return .literal (← hexChar mode 4) false
  | 'U' => return .literal (← hexChar mode 8) false
  | c => ofEscape? c

end Cadence.Pattern
