import Cadence.Directory.Place
import Cadence.Log.FileName

/-!
A log that starts a new file every day.
-/

namespace Cadence.Log

/-- A log in the directory at `base` below `root`, and the day whose file is open. -/
structure Daily where
  root : Directory Bytes
  base : String
  filePrefix : String
  day : String

namespace Daily

/-- The path of the file of a day. -/
def path (log : Daily) (day : String) : String :=
  filePath log.base log.filePrefix day

/-- Changes to the file of a day, which is created if it is not there. -/
def roll (log : Daily) (day : String) : Except FileFault Daily := do
  return { log with root := ← log.root.alter (log.path day) (·.getD []), day }

/-- Opens the log. -/
def start (root : Directory Bytes) (base filePrefix today : String) : Except FileFault Daily :=
  roll { root, base, filePrefix, day := today } today

/-- Appends to the file of today, changing to it first if the day has changed. -/
def write (log : Daily) (today : String) (data : Bytes) : Except FileFault Daily := do
  let log ← if log.day = today then pure log else log.roll today
  return { log with root := ← log.root.alter (log.path log.day) (·.getD [] ++ data) }

end Daily

end Cadence.Log
