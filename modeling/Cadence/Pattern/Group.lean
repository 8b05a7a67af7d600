import Cadence.Pattern.Reader
import Cadence.Text.Alphanumeric

/-!
What stands behind an opening parenthesis: the name of a group, or letters that change the mode.
-/

namespace Cadence.Pattern

/-- Turns the setting of a letter on or off; other letters change nothing that matters here. -/
def Mode.turn (mode : Mode) (on : Bool) (letter : Char) : Mode :=
  match letter with
  | 'i' => { mode with caseless := on }
  | 'u' => { mode with unicode := on }
  | 'x' => { mode with spaced := on }
  | _ => mode

/-- Letters that change the mode. -/
def modeLetters : List Char := ['i', 'm', 's', 'U', 'u', 'R', 'x']

/-- Reads letters: those in front of a hyphen turn settings on, those behind it turn them off. Nothing
may be said twice. -/
def changeMode (mode : Mode) (letters : List Char) : Option Mode :=
  let on := letters.takeWhile (· != '-')
  let off := letters.drop (on.length + 1)
  if letters.all (fun c => c == '-' || modeLetters.contains c) ∧ letters.Nodup
      ∧ letters.getLast? ≠ some '-' then
    some (off.foldl (·.turn false) (on.foldl (·.turn true) mode))
  else none

def startsName (c : Char) : Bool :=
  c == '_' || Text.isAlphabetic c

def continuesName (c : Char) : Bool :=
  c == '_' || c == '.' || c == '[' || c == ']' || Text.isAlphanumeric c

/-- The text can be the name of a group. -/
def isName : List Char → Bool
  | [] => false
  | c :: name => startsName c && name.all continuesName

/-- What an opening parenthesis starts. -/
inductive Opening
  | group (mode : Mode) (name : Option (List Char))
  /-- A change of the mode that holds up to the end of the group around it. -/
  | setting (mode : Mode)

/-- Reads what stands behind an opening parenthesis. Groups that look ahead or behind are refused, as
their signs are no letters. -/
def opening (mode : Mode) : Reader Opening := do
  skipBlanks mode
  if (← takeWord "?P<".toList) || (← takeWord "?<".toList) then
    let name ← takeUntil (· == '>')
    let _ ← next
    require (isName name)
    return .group mode (some name)
  else if ← takeWord ['?'] then
    let letters ← takeUntil fun c => c == ':' || c == ')'
    let changed ← changeMode mode letters
    if (← next) = ':' then return .group changed none
    require !letters.isEmpty
    return .setting changed
  else return .group mode none

end Cadence.Pattern
