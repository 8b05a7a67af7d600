import Cadence.Event
import Cadence.Fault

/-!
Results together with the events on the way to them. The events stay when a later step fails.
-/

namespace Cadence

/-- A result and what happened before it was known. -/
structure Outcome (ε α : Type) where
  result : Except ε α
  events : List Event := []

namespace Outcome

variable {ε ε' α β : Type}

def ofExcept (result : Except ε α) : Outcome ε α :=
  ⟨result, []⟩

/-- Records events. -/
def note (events : List Event) : Outcome ε Unit :=
  ⟨.ok (), events⟩

/-- Goes on with the value of a result; after a fault nothing more happens. -/
def bind (first : Outcome ε α) (next : α → Outcome ε β) : Outcome ε β :=
  match first.result with
  | .ok value => ⟨(next value).result, first.events ++ (next value).events⟩
  | .error fault => ⟨.error fault, first.events⟩

/-- Describes what goes wrong in other terms. -/
def mapError (f : ε → ε') (outcome : Outcome ε α) : Outcome ε' α :=
  ⟨outcome.result.mapError f, outcome.events⟩

instance : Monad (Outcome ε) where
  pure value := ⟨.ok value, []⟩
  bind := bind

instance : MonadLift (Except ε) (Outcome ε) := ⟨ofExcept⟩

end Outcome

end Cadence
