import Cadence.Pattern.Atom

/-!
Sets of characters in square brackets. A set lists characters, ranges and further sets, and operators
may join such lists. Sets within sets are followed on a stack. How deeply parts are nested is counted
alike within a set and around it: something joined from at least two parts is one level deeper than its
deepest part, and a single part stands for itself.
-/

namespace Cadence.Pattern

/-- The greatest of some depths. -/
def deepest (depths : List Nat) : Nat :=
  depths.foldl max 0

/-- The depth of what is joined from parts. -/
def joined (depths : List Nat) : Nat :=
  match depths with
  | _ :: _ :: _ => deepest depths + 1
  | _ => deepest depths

/-- A set that has not been closed. -/
structure CharSet where
  /-- Nothing but hyphens has been read, so a hyphen or a closing bracket is a member. -/
  isFresh : Bool := true
  /-- The depth of what stands in front of the last operator. -/
  left : Option Nat := none
  /-- The depths of the members behind it. -/
  members : List Nat := []

namespace CharSet

def depth (set : CharSet) : Nat :=
  match set.left with
  | none => joined set.members
  | some left => max left (joined set.members) + 1

/-- Adds a member. -/
def add (set : CharSet) (depth : Nat) : CharSet :=
  { set with members := depth :: set.members }

/-- Goes on behind an operator. -/
def operate (set : CharSet) : CharSet :=
  { isFresh := false, left := some set.depth }

end CharSet

/-- The names of sets that are known by name. -/
def setNames : List String :=
  ["alnum", "alpha", "ascii", "blank", "cntrl", "digit", "graph", "lower", "print", "punct", "space",
    "upper", "word", "xdigit"]

/-- The rest of a set known by name, behind its opening bracket: whether it is negated, and the text
behind it. -/
def namedSet? (text : List Char) : Option (Bool × List Char) := do
  let text ← [':'].isPrefixOf? text
  let (negated, text) := match text with
    | '^' :: text => (true, text)
    | _ => (false, text)
  let name := text.takeWhile (· != ':')
  let rest ← [':', ']'].isPrefixOf? (text.drop name.length)
  if setNames.contains (String.ofList name) then some (negated, rest) else none

/-- The next character that means something, behind a hyphen. The rest of a line with a comment is
not passed over. -/
def beyondHyphen (mode : Mode) (text : List Char) : Option Char :=
  if mode.spaced then
    match text.dropWhile Text.isBlank with
    | '#' :: text => (text.dropWhile Text.isBlank).head?
    | text => text.head?
  else text.head?

/-- A hyphen comes next, and a range goes on behind it. -/
def isRange (mode : Mode) : List Char → Bool
  | '-' :: text => beyondHyphen mode text != some ']' && beyondHyphen mode text != some '-'
  | _ => false

/-- Reads a character or an escape. -/
def endpoint (mode : Mode) : Reader Atom := do
  match ← next with
  | '\\' => escape mode
  | c => return .literal c false

/-- Reads a character, an escape or a range. -/
def member (mode : Mode) : Reader Unit := do
  let first ← endpoint mode
  require (first.isMember mode)
  skipBlanks mode
  let _ ← peek
  if isRange mode (← get) then
    let _ ← next
    skipBlanks mode
    let last ← endpoint mode
    require (last.isMember mode)
    match first, last with
    | .literal low _, .literal high _ => require (low ≤ high)
    | _, _ => failure

/-- Reads the start of a set, behind its opening bracket. A set of all characters but some would hold
bytes beyond ASCII if bytes are matched. -/
def openSet (mode : Mode) : Reader CharSet := do
  skipBlanks mode
  if ← takeWord ['^'] then
    require mode.unicode
    skipBlanks mode
  return {}

/-- Reads an opening bracket within a set. -/
def openWithin (mode : Mode) (set : CharSet) (outer : List CharSet) :
    Reader (CharSet × List CharSet) := do
  let _ ← next
  match namedSet? (← get) with
  | some (negated, rest) =>
    require (if mode.unicode then !mode.caseless else !negated)
    StateT.set rest
    return (set.add 0, outer)
  | none => return (← openSet mode, set :: outer)

/-- Reads a member or an operator. -/
def memberOrOperator (mode : Mode) (set : CharSet) : Reader CharSet := do
  for operator in ['&', '-', '~'] do
    if ← takeWord [operator, operator] then return set.operate
  member mode
  return set.add 0

/-- Reads the rest of a set, in at most `steps` steps, and gives its depth. -/
def closeSet (mode : Mode) : (steps : Nat) → CharSet → List CharSet → Reader Nat
  | 0, _, _ => failure
  | steps + 1, set, outer => do
    skipBlanks mode
    let c ← peek
    if set.isFresh && (c == '-' || (c == ']' && set.members.isEmpty)) then
      let _ ← next
      require ((Atom.literal c false).isMember mode)
      closeSet mode steps { set.add 0 with isFresh := c == '-' } outer
    else
      let set := { set with isFresh := false }
      match c, outer with
      | '[', _ =>
        let (set, outer) ← openWithin mode set outer
        closeSet mode steps set outer
      | ']', [] =>
        let _ ← next
        return set.depth + 1
      | ']', around :: outer =>
        let _ ← next
        closeSet mode steps (around.add (set.depth + 1)) outer
      | _, _ => closeSet mode steps (← memberOrOperator mode set) outer

/-- Reads a set behind its opening bracket, and gives its depth. Each step takes at least one
character. -/
def charSet (mode : Mode) : Reader Nat := do
  let set ← openSet mode
  closeSet mode ((← get).length + 1) set []

end Cadence.Pattern
