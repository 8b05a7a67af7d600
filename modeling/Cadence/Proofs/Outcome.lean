import Cadence.Outcome

/-!
Taking computations apart that may fail: what a whole computation gives is what its parts gave, one
after the other.
-/

namespace Cadence

variable {ε α β : Type}

/-- Two steps succeed exactly if both do, one behind the other. -/
theorem except_bind_eq_ok {first : Except ε α} {next : α → Except ε β} {b : β} :
    (first >>= next) = .ok b ↔ ∃ a, first = .ok a ∧ next a = .ok b := by
  change first.bind next = _ ↔ _
  cases first <;> simp [Except.bind]

/-- Two steps fail as the first one does, or as the second one behind it. -/
theorem except_bind_eq_error {first : Except ε α} {next : α → Except ε β} {fault : ε} :
    (first >>= next) = .error fault ↔
      first = .error fault ∨ ∃ a, first = .ok a ∧ next a = .error fault := by
  change first.bind next = _ ↔ _
  cases first <;> simp [Except.bind]

/-- What is known of a value that may be missing can be decided by computing it. -/
instance decidableExistsOk {first : Except ε α} {holds : α → Prop} [DecidablePred holds] :
    Decidable (∃ a, first = .ok a ∧ holds a) :=
  match first with
  | .ok a => decidable_of_iff (holds a) (by simp)
  | .error _ => isFalse (by simp)

theorem except_eq_ok_get {first : Except ε α} (h : first.toOption.isSome) :
    first = .ok (first.toOption.get h) := by
  cases first with
  | ok a => rfl
  | error fault => contradiction

namespace Outcome

@[simp] theorem result_note (events : List Event) :
    (note events : Outcome ε Unit).result = .ok () := rfl

@[simp] theorem result_bind (first : Outcome ε α) (next : α → Outcome ε β) :
    (first >>= next).result = first.result >>= fun a => (next a).result := by
  change (first.bind next).result = first.result.bind _
  unfold Outcome.bind
  cases first.result <;> rfl

/-- Going through a list, the events are the only thing that is kept beside the results. -/
theorem result_mapM (f : α → Except ε β) (items : List α) :
    (items.mapM fun item => ofExcept (f item)).result = items.mapM f := by
  suffices h : ∀ done, (List.mapM.loop (fun item => ofExcept (f item)) items done).result
      = List.mapM.loop f items done from h []
  induction items with
  | nil => exact fun _ => rfl
  | cons item items ih =>
      intro done
      rw [List.mapM.loop, List.mapM.loop, result_bind]
      exact bind_congr fun value => ih (value :: done)

end Outcome

end Cadence
