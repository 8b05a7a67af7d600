import Cadence.Fault

/-!
A buffer that keeps the newest values up to a fixed number of them. The values stand in an array that
is overwritten in a circle; `RingBuffer.values` lists them.
-/

namespace Cadence

/-- The newest values. The array is full before it is overwritten. -/
structure RingBuffer (α : Type) where
  capacity : Nat
  capacity_pos : 0 < capacity
  slots : Array α
  /-- The slot of the oldest value. -/
  start : Nat
  size_le : slots.size ≤ capacity
  start_lt : start < capacity
  start_eq_zero : slots.size < capacity → start = 0

namespace RingBuffer

variable {α : Type}

def empty (capacity : Nat) (capacity_pos : 0 < capacity) : RingBuffer α :=
  ⟨capacity, capacity_pos, #[], 0, Nat.zero_le _, capacity_pos, fun _ => rfl⟩

/-- An empty buffer of a capacity that may be zero, which is refused. -/
def ofCapacity (capacity : Nat) : Except Fault (RingBuffer α) :=
  if h : 0 < capacity then .ok (empty capacity h) else .error .noCapacity

/-- The values, oldest first. -/
def values (ring : RingBuffer α) : List α :=
  ring.slots.toList.drop ring.start ++ ring.slots.toList.take ring.start

/-- Appends a value. A full buffer loses its oldest one. -/
def push (ring : RingBuffer α) (value : α) : RingBuffer α :=
  if h : ring.slots.size < ring.capacity then
    { ring with
      slots := ring.slots.push value
      size_le := by rw [Array.size_push]; omega
      start_eq_zero := fun _ => ring.start_eq_zero h }
  else
    { ring with
      slots := ring.slots.setIfInBounds ring.start value
      start := (ring.start + 1) % ring.capacity
      size_le := by rw [Array.size_setIfInBounds]; exact ring.size_le
      start_lt := Nat.mod_lt _ ring.capacity_pos
      start_eq_zero := fun hSize => absurd hSize (by rwa [Array.size_setIfInBounds]) }

/-- Drops all values. -/
def clear (ring : RingBuffer α) : RingBuffer α :=
  empty ring.capacity ring.capacity_pos

def size (ring : RingBuffer α) : Nat :=
  ring.slots.size

def isEmpty (ring : RingBuffer α) : Bool :=
  ring.size == 0

def isFull (ring : RingBuffer α) : Bool :=
  ring.size == ring.capacity

/-- The value that `index` older ones precede. -/
def get? (ring : RingBuffer α) (index : Nat) : Option α :=
  if index < ring.size then ring.slots[(ring.start + index) % ring.size]? else none

def oldest? (ring : RingBuffer α) : Option α :=
  ring.get? 0

def newest? (ring : RingBuffer α) : Option α :=
  ring.get? (ring.size - 1)

/-- The slots up to the oldest value are in use. -/
theorem start_le_size (ring : RingBuffer α) : ring.start ≤ ring.slots.size := by
  have := ring.start_lt
  by_cases h : ring.slots.size < ring.capacity
  case pos => rw [ring.start_eq_zero h]; exact Nat.zero_le _
  case neg => omega

@[simp] theorem length_values (ring : RingBuffer α) : ring.values.length = ring.size := by
  have := ring.start_le_size
  simp only [values, size, List.length_append, List.length_drop, List.length_take, Array.length_toList]
  omega

theorem size_le_capacity (ring : RingBuffer α) : ring.size ≤ ring.capacity :=
  ring.size_le

/-- Values are counted from the oldest one. -/
theorem get?_eq (ring : RingBuffer α) (index : Nat) : ring.get? index = ring.values[index]? := by
  have hStart := ring.start_le_size
  unfold get?
  split
  case isTrue h =>
    have hSize : index < ring.slots.size := h
    simp only [values, size]
    by_cases hWrap : ring.start + index < ring.slots.size
    case pos =>
      rw [Nat.mod_eq_of_lt hWrap,
        List.getElem?_append_left (by simp only [List.length_drop, Array.length_toList]; omega),
        List.getElem?_drop, Array.getElem?_toList]
    case neg =>
      rw [Nat.mod_eq_sub_mod (by omega), Nat.mod_eq_of_lt (by omega),
        List.getElem?_append_right (by simp only [List.length_drop, Array.length_toList]; omega),
        List.length_drop, Array.length_toList, List.getElem?_take_of_lt (by omega),
        Array.getElem?_toList]
      congr 1
      omega
  case isFalse h => exact (List.getElem?_eq_none (by simpa using Nat.le_of_not_lt h)).symm

theorem oldest?_eq (ring : RingBuffer α) : ring.oldest? = ring.values.head? := by
  rw [oldest?, get?_eq, List.head?_eq_getElem?]

theorem newest?_eq (ring : RingBuffer α) : ring.newest? = ring.values.getLast? := by
  rw [newest?, get?_eq, List.getLast?_eq_getElem?, length_values]

/-- The newest values stay, as many as there is room for. -/
theorem values_push (ring : RingBuffer α) (value : α) :
    (ring.push value).values = (ring.values ++ [value]).drop (ring.size + 1 - ring.capacity) := by
  have hCapacity := ring.size_le
  have hStart := ring.start_lt
  unfold push size
  split
  case isTrue hRoom =>
    simp [values, ring.start_eq_zero hRoom, Nat.sub_eq_zero_of_le hRoom]
  case isFalse hFull =>
    have hSize : ring.slots.size = ring.capacity := by omega
    have hLt : ring.start < ring.slots.toList.length := by rw [Array.length_toList]; omega
    rw [hSize, Nat.add_sub_cancel_left]
    simp only [values, Array.toList_setIfInBounds]
    rw [List.drop_eq_getElem_cons hLt]
    simp only [List.cons_append, List.drop_succ_cons, List.drop_zero]
    have hTake : (ring.slots.toList.set ring.start value).take (ring.start + 1)
        = ring.slots.toList.take ring.start ++ [value] := by
      rw [List.take_succ_eq_append_getElem (by simpa using hLt), List.take_set_of_le (Nat.le_refl _),
        List.getElem_set_self]
    by_cases hEnd : ring.start + 1 = ring.capacity
    case pos =>
      rw [hEnd, Nat.mod_self, List.drop_zero, List.take_zero, List.append_nil,
        List.drop_of_length_le (by rw [Array.length_toList]; omega), List.nil_append, ← hTake,
        List.take_of_length_le (by rw [List.length_set, Array.length_toList]; omega)]
    case neg =>
      rw [Nat.mod_eq_of_lt (by omega), List.drop_set_of_lt (Nat.lt_succ_self _), hTake,
        List.append_assoc]

@[simp] theorem capacity_push (ring : RingBuffer α) (value : α) :
    (ring.push value).capacity = ring.capacity := by
  unfold push
  split <;> rfl

@[simp] theorem values_empty (capacity : Nat) (capacity_pos : 0 < capacity) :
    (empty capacity capacity_pos : RingBuffer α).values = [] := rfl

@[simp] theorem values_clear (ring : RingBuffer α) : ring.clear.values = [] := rfl

@[simp] theorem capacity_clear (ring : RingBuffer α) : ring.clear.capacity = ring.capacity := rfl

end RingBuffer

end Cadence
