import Cadence.Proofs.RingBuffer
import Cadence.Ticks

/-!
A ring buffer over a run of calls. Behind them it is the one that only the values since it was last cleared
have been pushed into (`serve_empty`). Whatever it is asked then, it answers as the list of the newest of
these values does, as many as there is room for (`shows_serve`).
-/

namespace Cadence

namespace RingBuffer

variable {α : Type}

/-- What changes a ring buffer. -/
inductive Call (α : Type)
  | push (value : α)
  | clear
  deriving DecidableEq

namespace Call

def value? : Call α → Option α
  | .push value => some value
  | .clear => none

end Call

def step (ring : RingBuffer α) : Call α → RingBuffer α
  | .push value => ring.push value
  | .clear => ring.clear

def serve (ring : RingBuffer α) (calls : List (Call α)) : RingBuffer α :=
  calls.foldl step ring

/-- The values behind the last clearing. -/
def sinceClear (calls : List (Call α)) : List α :=
  (calls.rtakeWhile (·.value?.isSome)).filterMap Call.value?

section Runs

variable {capacity : Nat} {ring : RingBuffer α}

theorem sinceClear_concat_push (calls : List (Call α)) (value : α) :
    sinceClear (calls ++ [.push value]) = sinceClear calls ++ [value] := by
  rw [sinceClear, List.rtakeWhile_concat_pos _ _ _ rfl, List.filterMap_append]
  rfl

theorem sinceClear_concat_clear (calls : List (Call α)) : sinceClear (calls ++ [.clear]) = [] := by
  rw [sinceClear, List.rtakeWhile_concat_neg _ _ _ Bool.false_ne_true]
  rfl

theorem serve_concat (ring : RingBuffer α) (calls : List (Call α)) (call : Call α) :
    ring.serve (calls ++ [call]) = (ring.serve calls).step call := by
  rw [serve, List.foldl_append]
  rfl

@[simp] theorem capacity_step (ring : RingBuffer α) (call : Call α) :
    (ring.step call).capacity = ring.capacity := by
  cases call with
  | push value => exact capacity_push ring value
  | clear => exact capacity_clear ring

@[simp] theorem capacity_serve (ring : RingBuffer α) (calls : List (Call α)) :
    (ring.serve calls).capacity = ring.capacity := by
  induction calls using List.reverseRecOn with
  | nil => rfl
  | append_singleton calls call ih => rw [serve_concat, capacity_step, ih]

/-- Nothing is left in a buffer that has been cleared. -/
theorem clear_eq_empty (h : ring.capacity = capacity) (hCapacity : 0 < capacity) :
    ring.clear = empty capacity hCapacity := by
  subst h
  rfl

/-- What comes before the last clearing has left no trace, neither in the slots nor in where they start. -/
theorem serve_empty (hCapacity : 0 < capacity) (calls : List (Call α)) :
    (empty capacity hCapacity).serve calls = (empty capacity hCapacity).pushAll (sinceClear calls) := by
  induction calls using List.reverseRecOn with
  | nil => rfl
  | append_singleton calls call ih =>
      rw [serve_concat]
      cases call with
      | push value =>
          rw [sinceClear_concat_push, pushAll_concat, ← ih]
          rfl
      | clear =>
          -- Of what the calls before have left, only the capacity counts, so `ih` has no part in this case.
          rw [sinceClear_concat_clear]
          exact clear_eq_empty (capacity_serve _ calls) hCapacity

/-- After any calls the buffer holds the newest values since it was last cleared. -/
theorem values_serve_empty (hCapacity : 0 < capacity) (calls : List (Call α)) :
    ((empty capacity hCapacity).serve calls).values = (sinceClear calls).rtake capacity := by
  rw [serve_empty, values_pushAll, values_empty, List.nil_append]
  rfl

end Runs

section Answers

/-- Whatever a buffer is asked, it answers as a list of values does. -/
structure Shows (ring : RingBuffer α) (held : List α) : Prop where
  values : ring.values = held
  size : ring.size = held.length
  isEmpty : ring.isEmpty = held.isEmpty
  isFull : ring.isFull = (held.length == ring.capacity)
  oldest? : ring.oldest? = held.head?
  newest? : ring.newest? = held.getLast?
  get? (index : Nat) : ring.get? index = held[index]?

theorem isEmpty_eq (ring : RingBuffer α) : ring.isEmpty = ring.values.isEmpty := by
  rw [isEmpty, ← length_values]
  cases ring.values <;> rfl

/-- Whatever is asked of a buffer, it answers for the list of its values. -/
theorem shows_values (ring : RingBuffer α) : Shows ring ring.values where
  values := rfl
  size := ring.length_values.symm
  isEmpty := ring.isEmpty_eq
  isFull := by rw [isFull, length_values]
  oldest? := ring.oldest?_eq
  newest? := ring.newest?_eq
  get? := ring.get?_eq

end Answers

/-- A buffer that has room for some value keeps the newest ones since it was last cleared, in the order in which
they came: all of them, or as many as there is room for. Every answer that it gives is that of the list of these,
and no call changes how much room there is. -/
theorem shows_serve {capacity : Nat} (hCapacity : 0 < capacity) :
    ∃ empty : RingBuffer α, ofCapacity capacity = .ok empty ∧ ∀ calls : List (Call α),
      (empty.serve calls).capacity = capacity ∧
      Shows (empty.serve calls) ((sinceClear calls).rtake (min (sinceClear calls).length capacity)) := by
  refine ⟨empty capacity hCapacity, dif_pos hCapacity, fun calls => ⟨capacity_serve _ calls, ?_⟩⟩
  rw [rtake_min_length, ← values_serve_empty hCapacity calls]
  exact shows_values _

/-- A buffer for three values is cleared when it has just lost one, and filled beyond its end again. -/
def sampleRefilled : List (Call Ticks) :=
  [.push 10, .push 20, .push 30, .push 40, .clear, .push 50, .push 60, .push 70, .push 80, .push 90]

/-- Of the values since the buffer was cleared the newest three are left. -/
theorem shows_serve_sampleRefilled :
    0 < 3 ∧ ∃ empty : RingBuffer Ticks, ofCapacity 3 = .ok empty ∧
      (empty.serve sampleRefilled).capacity = 3 ∧ Shows (empty.serve sampleRefilled) [70, 80, 90] := by
  obtain ⟨empty, hEmpty, hServe⟩ := shows_serve (α := Ticks) (show 0 < 3 by decide)
  obtain ⟨hCapacity, hShows⟩ := hServe sampleRefilled
  have hKept : (sinceClear sampleRefilled).rtake (min (sinceClear sampleRefilled).length 3)
      = [70, 80, 90] := by decide
  rw [hKept] at hShows
  exact ⟨by decide, empty, hEmpty, hCapacity, hShows⟩

end RingBuffer

end Cadence
