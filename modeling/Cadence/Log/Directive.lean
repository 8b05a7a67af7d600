import Cadence.Pattern.Check
import Cadence.Text.Alphanumeric
import Cadence.Text.Bytes
import Cadence.Text.Real

/-!
Directives that choose which events are written: a level, or a target with an optional level, where
the target may name a span and a field of it in brackets. Several directives are joined by commas.
-/

namespace Cadence.Log

namespace Directive

/-- How far a directive has been read. -/
inductive Place
  | start
  | target
  | span
  /-- Within a field that `start` bytes precede. -/
  | field (start : Nat)
  | afterField
  | afterSpan
  /-- Within a level that `start` bytes precede. -/
  | level (start : Nat)

/-- The first character of a directive without brackets. -/
def startsTarget (c : Char) : Bool :=
  c == '-' || c == ':' || c == '_' || Text.isAlphanumeric c

/-- A field is a name, or a name and a value with an equals sign between them. Values are numbers or
patterns; what follows another equals sign is not read. -/
def isField (field : List Char) : Bool :=
  match field.dropWhile (· != '=') with
  | [] => !field.isEmpty
  | _ :: rest =>
    let value := rest.takeWhile (· != '=')
    Text.isReal value || Pattern.isUsable value

/-- Goes on with a character that `read` bytes precede; a directive may not go on with every
character. -/
def next? (directive : List Char) (place : Place) (read : Nat) (c : Char) : Option Place :=
  match place with
  | .start => if c = '[' then some .span else if startsTarget c then some .target else none
  | .target => some (if c = '=' then .level (read + 1) else if c = '[' then .span else .target)
  | .span => some (if c = ']' then .afterSpan else if c = '{' then .field (read + 1) else .span)
  | .field start =>
    if c ≠ '}' then some place
    else if isField (Text.takeBytes (read - start) (Text.dropBytes start directive)) then
      some .afterField
    else none
  | .afterField => if c = ']' then some .afterSpan else none
  | .afterSpan => if c = '=' then some (.level (read + 1)) else none
  | .level _ => some place

/-- Reads text of a directive that `read` bytes precede. -/
def readFrom? (directive : List Char) : (place : Place) → (read : Nat) → List Char → Option Place
  | place, _, [] => some place
  | place, read, c :: rest => do
    readFrom? directive (← next? directive place read c) (read + c.utf8Size) rest

/-- The names of levels, in lower case. -/
def levelNames : List String := ["off", "error", "warn", "info", "debug", "trace"]

/-- The text is a level: a name in any case, its number, or nothing. -/
def isLevel (text : List Char) : Bool :=
  text.isEmpty || levelNames.contains (String.ofList (text.map Char.toLower))
    || (Decimal.nat? (levelNames.length - 1) text).isSome

/-- The directive can be used. White space around it is not read; and yet the bytes of a field and of
a level are counted from the start of it. -/
def accepts (directive : List Char) : Bool :=
  match readFrom? directive .start 0 (Text.trim directive) with
  | some (.level start) => isLevel (Text.dropBytes start directive)
  | some .target | some .afterSpan => true
  | _ => false

end Directive

/-- All directives of a list can be used. Empty ones are passed over. -/
def acceptsDirectives (text : String) : Bool :=
  (text.splitOn ",").all fun directive => directive.isEmpty || Directive.accepts directive.toList

end Cadence.Log
