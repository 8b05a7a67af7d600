import Cadence.Date
import Cadence.Path
import Cadence.Text.Bytes

/-!
The names of log files: a prefix, the day, and endings that say whether the file is compressed. The
day is given as text, in the form that dates are written in.
-/

namespace Cadence.Log

/-- The name of the log file of a day. -/
def fileName (filePrefix day : String) : String :=
  filePrefix ++ "." ++ day ++ ".log"

/-- The path of the log file of a day in the directory at `base`. -/
def filePath (base filePrefix day : String) : String :=
  Path.join base (fileName filePrefix day)

/-- What the name of a log file tells. -/
structure FileName where
  date : Date
  compressed : Bool
  deriving DecidableEq, Repr

namespace FileName

/-- The length in bytes of the text of a day. Dates in other spellings are accepted if they have this
length. -/
def dayLength : Nat := 10

/-- Reads the name of a log file with a given prefix. -/
def ofChars? (filePrefix name : List Char) : Option FileName := do
  let rest ← (filePrefix ++ ['.']).isPrefixOf? name
  let ending := ['.', 'g', 'z'].isSuffixOf? rest
  let day ← ['.', 'l', 'o', 'g'].isSuffixOf? (ending.getD rest)
  if Text.utf8Length day ≠ dayLength then none
  else return ⟨← Date.ofChars? day, ending.isSome⟩

end FileName

end Cadence.Log
