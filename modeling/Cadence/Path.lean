import Cadence.Fault
import Cadence.Text.Bytes

/-!
Paths, which are written with slashes.
-/

namespace Cadence.Path

/-- The path of `name` as seen from the directory at `base`. A name that starts at the root is a path
by itself. -/
def join (base name : String) : String :=
  if name.startsWith "/" || base.isEmpty then name
  else if base.endsWith "/" then base ++ name
  else base ++ "/" ++ name

/-- The names along a path. -/
def steps (path : String) : List String :=
  ((path.toList.splitOn '/').map String.ofList).filter (!·.isEmpty)

/-- The name that stands for the directory itself. -/
def here : String := "."

/-- The name that stands for the directory around. -/
def parent : String := ".."

/-- The size in bytes that a name may have. -/
def maxName : Nat := 255

/-- The size in bytes that a path may have. -/
def maxPath : Nat := 4095

/-- The text takes at most `most` bytes. -/
def fits (most : Nat) (text : String) : Bool :=
  Text.utf8Length text.toList ≤ most

/-- Refuses what is no path at all. -/
def check (path : String) : Except FileFault Unit :=
  if path.toList.contains '\x00' then .error .invalidInput
  else if path.isEmpty then .error .notFound
  else if fits maxPath path then .ok ()
  else .error .nameTooLong

end Cadence.Path
