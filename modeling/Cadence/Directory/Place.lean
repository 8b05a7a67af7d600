import Cadence.Directory
import Cadence.Path

/-!
Places in a tree of directories. A place knows the directories around it, so paths may lead upwards
too, and the tree can be put together again from any place in it.
-/

namespace Cadence.Directory

variable {Content : Type}

/-- A directory within others. -/
structure Place (Content : Type) where
  entries : Directory Content
  /-- The directories around it, from the inside out, with the names that lead inwards. -/
  around : List (String × Directory Content)

namespace Place

/-- The place at the root of a tree. -/
def ofRoot (root : Directory Content) : Place Content :=
  ⟨root, []⟩

/-- The directory around. There is none around the root, which stands in for it. -/
def up (place : Place Content) : Place Content :=
  match place.around with
  | [] => place
  | (name, outer) :: around => ⟨outer.put name (.folder place.entries), around⟩

/-- The directory `entries`, which goes by a name here. -/
def down (place : Place Content) (name : String) (entries : Directory Content) : Place Content :=
  ⟨entries, (name, place.entries) :: place.around⟩

/-- The tree around a place. -/
def root (place : Place Content) : Directory Content :=
  place.around.foldl (fun entries (name, outer) => outer.put name (.folder entries)) place.entries

/-- Takes a step of a path. -/
def enter (place : Place Content) (step : String) : Except FileFault (Place Content) :=
  if step = Path.here then .ok place
  else if step = Path.parent then .ok place.up
  else if !Path.fits Path.maxName step then .error .nameTooLong
  else
    match place.entries.lookup step with
    | some (.folder entries) => .ok (place.down step entries)
    | some (.file _) => .error .notDirectory
    | none => .error .notFound

/-- Takes steps one after the other. -/
def walk (place : Place Content) (steps : List String) : Except FileFault (Place Content) :=
  steps.foldlM enter place

/-- Takes steps, and creates the directories that are not there. -/
def create (place : Place Content) : (steps : List String) → Except FileFault (Place Content)
  | [] => .ok place
  | step :: steps =>
    match place.enter step with
    | .ok place => place.create steps
    | .error .notFound => (place.down step []).create steps
    | .error .notDirectory => .error (if steps.isEmpty then .alreadyExists else .notDirectory)
    | .error fault => .error fault

end Place

/-- The contents of the directory at a path. -/
def list (root : Directory Content) (path : String) : Except FileFault (Directory Content) := do
  Path.check path
  return (← (Place.ofRoot root).walk (Path.steps path)).entries

/-- Creates the directory at a path and those above it. If the path ends by staying in place, its last
directory has to be there already. -/
def create (root : Directory Content) (path : String) : Except FileFault (Directory Content) := do
  Path.check path
  let steps := (Path.steps path).filter (· ≠ Path.here)
  if (Path.steps path).getLast? = some Path.here then
    let place ← (Place.ofRoot root).create steps.dropLast
    let _ ← place.walk (steps.drop steps.dropLast.length)
    return place.root
  else return (← (Place.ofRoot root).create steps).root

/-- Changes the contents of the file at a path; they are given as absent if there is no file, which is
created then. -/
def alter (root : Directory Content) (path : String) (change : Option Content → Content) :
    Except FileFault (Directory Content) := do
  Path.check path
  let steps := Path.steps path
  let place ← (Place.ofRoot root).walk steps.dropLast
  match steps.getLast? with
  | none => throw .isDirectory
  | some name =>
    if name = Path.here ∨ name = Path.parent then throw .isDirectory
    else if !Path.fits Path.maxName name then throw .nameTooLong
    else
      let content ← match place.entries.lookup name with
        | none => pure none
        | some (.file content) => pure (some content)
        | some (.folder _) => throw .isDirectory
      return { place with entries := place.entries.put name (.file (change content)) }.root

end Cadence.Directory
