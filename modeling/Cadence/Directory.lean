import Cadence.Bits.Basic
import Cadence.Table

/-!
Directories. Their names are listed in no particular order, so a directory is a table, and whoever
walks over it follows the order of its list.
-/

namespace Cadence

/-- What a directory holds under a name. -/
inductive Node (Content : Type)
  | file (content : Content)
  | folder (entries : List (String × Node Content))

/-- Names with what they stand for. -/
abbrev Directory (Content : Type) := Table String (Node Content)

namespace Directory

variable {Content : Type}

/-- The name stands for a directory. -/
def hasFolder (directory : Directory Content) (name : String) : Bool :=
  match directory.lookup name with
  | some (.folder _) => true
  | _ => false

end Directory

end Cadence
