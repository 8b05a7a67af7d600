import Cadence.Json.Number
import Cadence.Json.Quoted

/-!
Skipping a value that is not needed. Nesting is followed on a stack, so no depth is too great.
-/

namespace Cadence.Json

namespace Skip

/-- What holds the value that is being skipped. -/
inductive Frame
  | list
  | object
  deriving DecidableEq

def Frame.close : Frame → Char
  | .list => ']'
  | .object => '}'

/-- Whether a value comes next, or the end of the frame or another value in it. -/
inductive Place
  | value
  | after

end Skip

namespace Reader

open Skip

/-- Skips a key of an object and the colon behind it. -/
def skipKey : Reader Unit := do
  if (← peek) ≠ '"' then throw .grammar
  let _ ← quoted false
  if (← peek) ≠ ':' then throw .grammar
  advance

/-- Enters a list or an object. An empty one ends at once. -/
def enter (frame : Frame) (frames : List Frame) : Reader (Place × List Frame) := do
  advance
  if (← peek) = frame.close then
    advance
    return (.after, frames)
  if frame = .object then skipKey
  return (.value, frame :: frames)

/-- Skips the start of a value, or all of it if it is neither a list nor an object. -/
def skipStart (frames : List Frame) : Reader (Place × List Frame) := do
  match ← peek with
  | '[' => enter .list frames
  | '{' => enter .object frames
  | '"' =>
    let _ ← quoted false
    return (.after, frames)
  | 'n' => expect "null".toList; return (.after, frames)
  | 't' => expect "true".toList; return (.after, frames)
  | 'f' => expect "false".toList; return (.after, frames)
  | c =>
    if c.isDigit || c == '-' then
      let _ ← number .grammar
      return (.after, frames)
    else throw .grammar

/-- Skips what stands between two values, or behind the last one of a frame. -/
def skipSeparator (frame : Frame) (frames : List Frame) : Reader (Place × List Frame) := do
  let c ← peek
  advance
  if c = frame.close then return (.after, frames)
  if c ≠ ',' then throw .grammar
  if frame = .object then skipKey
  return (.value, frame :: frames)

/-- Skips up to the end of the outermost value, in at most `steps` steps. -/
def skipRest : (steps : Nat) → Place → List Frame → Reader Unit
  | _, .after, [] => pure ()
  | 0, _, _ => throw .endOfText
  | steps + 1, .value, frames => do
    let (place, frames) ← skipStart frames
    skipRest steps place frames
  | steps + 1, .after, frame :: frames => do
    let (place, frames) ← skipSeparator frame frames
    skipRest steps place frames

/-- Skips a value. Each step takes at least one character. -/
def skip : Reader Unit := do
  skipRest ((← get).length + 1) .value []

end Reader

end Cadence.Json
