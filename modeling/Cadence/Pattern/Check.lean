import Cadence.Pattern.CharSet
import Cadence.Pattern.Group

/-!
Whether a text is a pattern that can be used. Groups within groups are followed on a stack, and may
not be nested too deeply in the end.
-/

namespace Cadence.Pattern

/-- A part of a sequence. -/
inductive Part
  /-- A change of the mode, which cannot be repeated. -/
  | setting
  | item (depth : Nat)

def Part.depth : Part → Nat
  | setting => 0
  | item depth => depth

/-- Alternatives that have not been closed. -/
structure Body where
  /-- The parts of the last alternative, the last part first. -/
  parts : List Part := []
  /-- The depths of the alternatives before it. -/
  before : List Nat := []

namespace Body

def add (body : Body) (part : Part) : Body :=
  { body with parts := part :: body.parts }

/-- Starts another alternative. -/
def branch (body : Body) : Body :=
  ⟨[], joined (body.parts.map Part.depth) :: body.before⟩

def depth (body : Body) : Nat :=
  joined body.branch.before

/-- Repeats the last part. -/
def repeatLast? (body : Body) : Option Body :=
  match body.parts with
  | .item depth :: parts => some { body with parts := .item (depth + 1) :: parts }
  | _ => none

end Body

/-- How far a pattern has been read. -/
structure State where
  mode : Mode := {}
  body : Body := {}
  /-- What stands around the open groups, from the inside out, with the mode behind each of them. -/
  outer : List (Body × Mode) := []
  /-- The names of groups. -/
  names : List (List Char) := []

namespace State

def add (state : State) (part : Part) : State :=
  { state with body := state.body.add part }

/-- Enters what stands behind an opening parenthesis. A name may be given once. -/
def enter (state : State) : Opening → Option State
  | .setting mode => some { state.add .setting with mode }
  | .group mode name =>
    if name.any state.names.contains then none
    else some {
      mode
      body := {}
      outer := (state.body, state.mode) :: state.outer
      names := name.toList ++ state.names }

/-- Leaves the innermost group. -/
def leave (state : State) : Option State :=
  match state.outer with
  | [] => none
  | (body, mode) :: outer =>
    some { state with mode, body := body.add (.item (state.body.depth + 1)), outer }

end State

/-- Reads on behind a character. -/
def step (state : State) (c : Char) : Reader State :=
  match c with
  | '(' => do state.enter (← opening state.mode)
  | ')' => state.leave
  | '|' => return { state with body := state.body.branch }
  | '[' => return state.add (.item (← charSet state.mode))
  | '?' | '*' | '+' => do
    let body ← state.body.repeatLast?
    let _ ← takeWord ['?']
    return { state with body }
  | '{' => failure
  | '\\' => do
    require ((← escape state.mode).isUsable state.mode)
    return state.add (.item 0)
  | '.' => do
    require state.mode.unicode
    return state.add (.item 0)
  | '^' | '$' => return state.add (.item 0)
  | c => do
    require ((Atom.literal c false).isUsable state.mode)
    return state.add (.item 0)

/-- Reads to the end, in at most `steps` steps. -/
def readAll : (steps : Nat) → State → Reader State
  | 0, _ => failure
  | steps + 1, state => do
    skipBlanks state.mode
    if (← get).isEmpty then return state
    readAll steps (← step state (← next))

/-- The depth that a pattern may have. -/
def maxDepth : Nat := 250

/-- The text is a pattern that can be used. Counted repetitions are not served. Each step takes at
least one character. -/
def isUsable (text : List Char) : Bool :=
  match readAll (text.length + 1) {} text with
  | some (state, _) => state.outer.isEmpty && state.body.depth ≤ maxDepth
  | none => false

end Cadence.Pattern
