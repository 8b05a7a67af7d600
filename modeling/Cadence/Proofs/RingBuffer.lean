import Mathlib.Data.List.DropRight
import Cadence.RingBuffer

/-!
A ring buffer over a run of values. However many values are pushed into it, it holds the newest of them,
as many as it has room for (`values_pushAll`).
-/

namespace Cadence

/-- What a list loses in front before a value comes to its end is not among its newest values. -/
theorem rtake_rtake_concat {α : Type} (l : List α) (n : Nat) (a : α) :
    (l.rtake n ++ [a]).rtake n = (l ++ [a]).rtake n := by
  cases n with
  | zero => rw [List.rtake_zero, List.rtake_zero]
  | succ n =>
      rw [List.rtake_concat_succ, List.rtake_concat_succ]
      congr 1
      simp only [List.rtake_eq_reverse_take_reverse, List.reverse_reverse, List.take_take]
      rw [Nat.min_eq_left n.le_succ]

theorem map_rtake {α β : Type} (f : α → β) (l : List α) (n : Nat) :
    (l.map f).rtake n = (l.rtake n).map f := by
  rw [List.rtake, List.rtake, List.length_map, List.map_drop]

/-- No list has more newest values than it has values. -/
theorem rtake_min_length {α : Type} (l : List α) (n : Nat) : l.rtake (min l.length n) = l.rtake n := by
  have hDropped : l.length - min l.length n = l.length - n := by omega
  rw [List.rtake, List.rtake, hDropped]

namespace RingBuffer

variable {α : Type}

/-- A value is put behind the others, and the oldest gives way if there is no room. -/
theorem values_push_eq_rtake (ring : RingBuffer α) (value : α) :
    (ring.push value).values = (ring.values ++ [value]).rtake ring.capacity := by
  rw [values_push, List.rtake, List.length_append, length_values, List.length_singleton]

/-- A value takes the place of the oldest one if there is no other room. -/
theorem values_push_of_isFull (ring : RingBuffer α) (value : α) :
    (ring.push value).values
      = (if ring.isFull then ring.values.tail else ring.values) ++ [value] := by
  have hSize := ring.size_le_capacity
  rw [values_push, isFull]
  by_cases hFull : ring.size = ring.capacity
  · have hOne : ring.size + 1 - ring.capacity = 1 := by omega
    have hSome : 1 ≤ ring.values.length := by
      rw [length_values, hFull]
      exact ring.capacity_pos
    rw [hOne, if_pos (beq_iff_eq.mpr hFull), List.drop_append_of_le_length hSome, List.drop_one]
  · have hNone : ring.size + 1 - ring.capacity = 0 := by omega
    rw [hNone, if_neg (mt beq_iff_eq.mp hFull), List.drop_zero]

theorem rtake_values (ring : RingBuffer α) : ring.values.rtake ring.capacity = ring.values := by
  rw [List.rtake, length_values, Nat.sub_eq_zero_of_le ring.size_le_capacity, List.drop_zero]

/-- Pushes values one after the other. -/
def pushAll (ring : RingBuffer α) (values : List α) : RingBuffer α :=
  values.foldl push ring

@[simp] theorem capacity_pushAll (ring : RingBuffer α) (values : List α) :
    (ring.pushAll values).capacity = ring.capacity := by
  induction values generalizing ring with
  | nil => rfl
  | cons value values ih => exact (ih _).trans (ring.capacity_push value)

theorem pushAll_concat (ring : RingBuffer α) (values : List α) (value : α) :
    ring.pushAll (values ++ [value]) = (ring.pushAll values).push value := by
  rw [pushAll, List.foldl_append]
  rfl

/-- Values pushed one after another leave the newest ones, by induction over them. -/
theorem values_pushAll (ring : RingBuffer α) (values : List α) :
    (ring.pushAll values).values = (ring.values ++ values).rtake ring.capacity := by
  induction values using List.reverseRecOn with
  | nil => rw [List.append_nil, rtake_values]; rfl
  | append_singleton values value ih =>
      rw [pushAll_concat, values_push_eq_rtake, capacity_pushAll, ih, rtake_rtake_concat, List.append_assoc]

end RingBuffer

end Cadence
