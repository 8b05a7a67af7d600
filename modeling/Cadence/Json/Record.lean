import Cadence.Json.Skip

/-!
Reading values of a known shape. A record is written as an object, whose unknown keys are skipped, or
as a list of its fields in order. Fields that are left out keep their default.
-/

namespace Cadence.Json

namespace Reader

variable {α : Type}

/-- Reports a value of another shape than the one asked for; faults within it come first. -/
def mismatch : Reader α := do
  match ← peek with
  | '[' | '{' => pure ()
  | '"' => let _ ← quoted true
  | 'n' => expect "null".toList
  | 't' => expect "true".toList
  | 'f' => expect "false".toList
  | c =>
    if !(c.isDigit || c == '-') then throw .grammar
    if !(← number .endOfText).isFinite then throw .grammar
  throw .data

def text : Reader String := do
  match ← peek with
  | '"' => quoted true
  | _ => mismatch

def bool : Reader Bool := do
  match ← peek with
  | 't' => expect "true".toList; return true
  | 'f' => expect "false".toList; return false
  | _ => mismatch

/-- A whole number of 64 bits with a sign. -/
def int64 : Reader Int64 := do
  let c ← peek
  if !(c.isDigit || c == '-') then mismatch
  else
    let number ← number .endOfText
    match number.integer? with
    | some value =>
      if Int64.minValue.toInt ≤ value ∧ value ≤ Int64.maxValue.toInt then
        return Int64.ofInt value
      else throw .data
    | none => if number.isFinite then throw .data else throw .grammar

/-- A value that may be null instead. -/
def optional (reader : Reader α) : Reader (Option α) := do
  match ← peek with
  | 'n' => expect "null".toList; return none
  | _ => return some (← reader)

/-- A named part of a record, which is read as a change to the record. -/
structure Field (α : Type) where
  name : String
  read : Reader (α → α)

/-- A field that is put into the record by `store`. -/
def field {β : Type} (name : String) (reader : Reader β) (store : α → β → α) : Field α :=
  ⟨name, do
    let value ← reader
    return (store · value)⟩

/-- Moves to the next element of a list, and says whether there is one. -/
def nextElement (first : Bool) : Reader Bool := do
  let c ← peek
  if c = ']' then return false
  else if first then return true
  else if c ≠ ',' then throw .grammar
  else
    advance
    if (← peek) = ']' then throw .grammar
    return true

/-- Reads fields from the elements of a list, which has no more elements than there are fields. -/
def elements : (first : Bool) → List (Field α) → α → Reader α
  | _, [], record => do
    if (← peek) ≠ ']' then throw .grammar
    advance
    return record
  | first, field :: fields, record => do
    if ← nextElement first then
      let change ← field.read
      elements false fields (change record)
    else
      advance
      return record

/-- Reads the next key of an object, if there is one. -/
def nextKey? (first : Bool) : Reader (Option String) := do
  let c ← peek
  if c = '}' then return none
  if !first then
    if c ≠ ',' then throw .grammar
    advance
  if (← peek) ≠ '"' then throw .grammar
  return some (← quoted true)

def colon : Reader Unit := do
  if (← peek) ≠ ':' then throw .grammar
  advance

/-- Reads members of an object, in at most `steps` steps. No field may be given twice. -/
def members (fields : List (Field α)) :
    (steps : Nat) → (first : Bool) → (seen : List String) → α → Reader α
  | 0, _, _, _ => throw .endOfText
  | steps + 1, first, seen, record => do
    match ← nextKey? first with
    | none =>
      advance
      return record
    | some key =>
      match fields.find? (·.name == key) with
      | none =>
        colon
        skip
        members fields steps false seen record
      | some field =>
        if seen.contains key then throw .data
        colon
        let change ← field.read
        members fields steps false (key :: seen) (change record)

/-- Reads a record whose fields are as in `default` unless they are given. -/
def record (fields : List (Field α)) (default : α) : Reader α := do
  match ← peek with
  | '[' =>
    advance
    elements true fields default
  | '{' =>
    advance
    members fields ((← get).length + 1) true [] default
  | _ => mismatch

end Reader

end Cadence.Json
