import Cadence.Fault
import Cadence.Json.Basic

/-!
Failures of the application: a cause, and what was being done, from the outside in.
-/

namespace Cadence

/-- What a failure comes down to. -/
inductive Cause
  | fault (fault : Fault)
  | json (fault : Json.Fault)
  | file (fault : FileFault)
  deriving DecidableEq, Repr

/-- A cause with the activities in which it came up, the outermost first. -/
structure Failure where
  contexts : List String
  /-- Absent if there is nothing to say beyond the contexts. -/
  cause : Option Cause
  deriving DecidableEq, Repr

namespace Failure

def ofFault (context : String) (fault : Fault) : Failure :=
  ⟨[context], some (.fault fault)⟩

/-- Puts a failure into a wider context. -/
def within (failure : Failure) (context : String) : Failure :=
  { failure with contexts := context :: failure.contexts }

/-- The texts to show, the outermost first. Faults in files and in JSON text have none here. -/
def messages (failure : Failure) : List String :=
  match failure.cause with
  | some (.fault (.file _)) => failure.contexts
  | some (.fault fault) => failure.contexts ++ [fault.message]
  | _ => failure.contexts

end Failure

end Cadence
