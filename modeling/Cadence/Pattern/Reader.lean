import Cadence.Text.Blank

/-!
Reading a pattern from its text. A pattern is a regular expression; only whether it can be used is of
interest here, so a reader fails without giving a reason.
-/

namespace Cadence.Pattern

/-- The settings that what is read next depends on. -/
structure Mode where
  /-- Upper and lower case are the same. -/
  caseless : Bool := false
  /-- Characters are matched, and not single bytes. -/
  unicode : Bool := true
  /-- White space in the pattern means nothing, and number signs start comments. -/
  spaced : Bool := false

/-- A computation that takes text off its front, or fails. -/
abbrev Reader (α : Type) := StateT (List Char) Option α

/-- Takes the next character. -/
def next : Reader Char
  | [] => none
  | c :: text => some (c, text)

/-- The next character, which stays. -/
def peek : Reader Char := fun text =>
  text.head?.map fun c => (c, text)

/-- Takes a word if it comes next. -/
def takeWord (word : List Char) : Reader Bool := fun text =>
  match word.isPrefixOf? text with
  | some rest => some (true, rest)
  | none => some (false, text)

/-- Takes the text in front of the next `stop`, which has to come. -/
def takeUntil (stop : Char → Bool) : Reader (List Char) := fun text =>
  let rest := text.dropWhile (!stop ·)
  if rest.isEmpty then none else some (text.takeWhile (!stop ·), rest)

/-- Fails unless a condition holds. -/
def require (condition : Bool) : Reader Unit :=
  if condition then pure () else failure

/-- Text without the white space and the comments in front of it; a comment reaches to the end of its
line. -/
def dropBlanks : (inComment : Bool) → List Char → List Char
  | _, [] => []
  | true, c :: text => dropBlanks (c != '\n') text
  | false, c :: text =>
    if c = '#' then dropBlanks true text
    else if Text.isBlank c then dropBlanks false text
    else c :: text

/-- Skips what means nothing in the mode. -/
def skipBlanks (mode : Mode) : Reader Unit :=
  modify fun text => if mode.spaced then dropBlanks false text else text

end Cadence.Pattern
