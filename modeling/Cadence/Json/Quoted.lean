import Cadence.Json.Basic
import Cadence.Text.Bytes
import Cadence.Text.Decimal

/-!
Strings in quotes. Characters outside the basic plane may be written as two escapes, one for each
surrogate. Where the contents matter, surrogates have to come in such pairs; in strings that are
skipped they may stand alone.
-/

namespace Cadence.Json

namespace Quoted

/-- What the next character of a string means. -/
inductive Mode
  | plain
  /-- It follows a backslash. -/
  | escaped
  /-- It is one of `left` digits of a code unit, of which the digits before make up `value`. The
  unit before it may be a high surrogate. -/
  | unit (high : Option Nat) (left value : Nat)
  /-- It has to be the backslash of the escape after a high surrogate. -/
  | pairBackslash (high : Nat)
  /-- It has to be the letter of that escape. -/
  | pairLetter (high : Nat)

/-- The character that a backslash and a letter stand for. -/
def simpleEscape? : Char → Option Char
  | '"' => some '"'
  | '\\' => some '\\'
  | '/' => some '/'
  | 'b' => some '\x08'
  | 'f' => some '\x0c'
  | 'n' => some '\n'
  | 'r' => some '\r'
  | 't' => some '\t'
  | _ => none

def isHigh (unit : Nat) : Bool :=
  0xD800 ≤ unit && unit ≤ 0xDBFF

def isLow (unit : Nat) : Bool :=
  0xDC00 ≤ unit && unit ≤ 0xDFFF

/-- The character that a pair of surrogates stands for. -/
def pair (high low : Nat) : Char :=
  Char.ofNat (0x10000 + (high - 0xD800) * 0x400 + (low - 0xDC00))

/-- What a complete code unit adds to the string, and how it goes on. -/
def settle (strict : Bool) (high : Option Nat) (unit : Nat) : Except Fault (List Char × Mode) :=
  match high with
  | some high => if isLow unit then .ok ([pair high unit], .plain) else .error .grammar
  | none =>
    if !strict then .ok ([], .plain)
    else if isLow unit then .error .grammar
    else if isHigh unit then .ok ([], .pairBackslash unit)
    else .ok ([Char.ofNat unit], .plain)

/-- Four bytes are left, which is the length of a code unit. -/
def hasUnit (text : List Char) : Bool :=
  4 ≤ Text.utf8Length (text.take 4)

/-- Reads the rest of a string, whose characters so far are `done` in reverse, and gives the string
and the text behind it. If the reader is not `strict`, code units are dropped. -/
def rest (strict : Bool) : Mode → (text done : List Char) → Except Fault (List Char × List Char)
  | _, [], _ => .error .endOfText
  | .plain, '"' :: text, done => .ok (done.reverse, text)
  | .plain, '\\' :: text, done => rest strict .escaped text done
  | .plain, c :: text, done =>
    if c.toNat < 0x20 then .error .grammar else rest strict .plain text (c :: done)
  | .escaped, 'u' :: text, done =>
    if hasUnit text then rest strict (.unit none 4 0) text done else .error .endOfText
  | .escaped, c :: text, done =>
    match simpleEscape? c with
    | some c => rest strict .plain text (c :: done)
    | none => .error .grammar
  | .unit high left value, c :: text, done =>
    match Text.hexDigit? c with
    | none => .error .grammar
    | some digit =>
      let value := 16 * value + digit
      if 1 < left then rest strict (.unit high (left - 1) value) text done
      else
        match settle strict high value with
        | .ok (added, mode) => rest strict mode text (added ++ done)
        | .error fault => .error fault
  | .pairBackslash high, c :: text, done =>
    if c = '\\' then rest strict (.pairLetter high) text done else .error .grammar
  | .pairLetter high, c :: text, done =>
    if c ≠ 'u' then .error .grammar
    else if hasUnit text then rest strict (.unit (some high) 4 0) text done
    else .error .endOfText

end Quoted

/-- Reads a string from the opening quote on. -/
def Reader.quoted (strict : Bool) : Reader String := do
  advance
  match Quoted.rest strict .plain (← get) [] with
  | .ok (contents, text) =>
    set text
    return String.ofList contents
  | .error fault => throw fault

end Cadence.Json
