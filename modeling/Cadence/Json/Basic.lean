/-!
Reading JSON text from front to back. A reader takes characters off the text as far as it needs them
and stops at the first fault, so that of two faults in a text the earlier one is reported.
-/

namespace Cadence.Json

/-- Why a text cannot be read. -/
inductive Fault
  /-- The text is not JSON. -/
  | grammar
  /-- The text is JSON so far, and not what was asked for. -/
  | data
  /-- The text stops in the middle. -/
  | endOfText
  deriving DecidableEq, Repr

/-- A reader of the front of a text. -/
abbrev Reader (α : Type) := StateT (List Char) (Except Fault) α

/-- White space between the parts of a text. -/
def isBlank (c : Char) : Bool :=
  c == ' ' || c == '\n' || c == '\t' || c == '\r'

namespace Reader

def skipBlanks : Reader Unit :=
  modify (·.dropWhile isBlank)

/-- The next character, which stays where it is. -/
def next? : Reader (Option Char) := do
  return (← get).head?

/-- The next character that is not white space, which stays where it is. -/
def peek? : Reader (Option Char) := do
  skipBlanks
  next?

/-- The next character that is not white space; there has to be one. -/
def peek : Reader Char := do
  match ← peek? with
  | some c => return c
  | none => throw .endOfText

/-- Drops the next character. -/
def advance : Reader Unit :=
  modify List.tail

/-- Reads given characters. -/
def expect : List Char → Reader Unit
  | [] => pure ()
  | c :: cs => do
    match ← next? with
    | none => throw .endOfText
    | some d => if c = d then advance else throw .grammar
    expect cs

end Reader

/-- Reads a whole text; only white space may follow what is read. -/
def read {α : Type} (reader : Reader α) (text : String) : Except Fault α := do
  let (value, rest) ← reader.run text.toList
  if rest.all isBlank then return value else throw .grammar

end Cadence.Json
