/-!
Small tables with one value for each key. A table is read through `List.lookup`; putting a value
replaces the one that the key had.
-/

namespace Cadence

/-- Keys with their values, each key at most once, the newest in front. -/
abbrev Table (Key Value : Type) := List (Key × Value)

namespace Table

variable {Key Value : Type} [DecidableEq Key]

/-- Removes a key. -/
def erase (table : Table Key Value) (key : Key) : Table Key Value :=
  table.filter fun entry => entry.1 ≠ key

/-- Stores a value, in place of the one that the key may have had. -/
def put (table : Table Key Value) (key : Key) (value : Value) : Table Key Value :=
  (key, value) :: table.erase key

/-- The entries in the order of their keys. -/
def sorted (le : Key → Key → Bool) (table : Table Key Value) : Table Key Value :=
  table.mergeSort fun a b => le a.1 b.1

private theorem erase_cons (entry : Key × Value) (table : Table Key Value) (key : Key) :
    erase (entry :: table) key
      = if entry.1 = key then erase table key else entry :: erase table key := by
  by_cases h : entry.1 = key <;> simp [erase, h]

theorem lookup_erase_self (table : Table Key Value) (key : Key) :
    (table.erase key).lookup key = none := by
  induction table with
  | nil => rfl
  | cons entry table ih =>
      rw [erase_cons]
      split
      case isTrue => exact ih
      case isFalse h =>
        have hOther : (key == entry.1) = false := by simpa using Ne.symm h
        rw [List.lookup_cons, hOther]
        exact ih

theorem lookup_erase_of_ne (table : Table Key Value) {key other : Key} (hNe : other ≠ key) :
    (table.erase key).lookup other = table.lookup other := by
  induction table with
  | nil => rfl
  | cons entry table ih =>
      rw [erase_cons]
      split
      case isTrue h =>
        have hOther : (other == entry.1) = false := by simpa [h] using hNe
        rw [List.lookup_cons, hOther]
        exact ih
      case isFalse => rw [List.lookup_cons, List.lookup_cons, ih]

/-- A key has the value that was stored last. -/
theorem lookup_put_self (table : Table Key Value) (key : Key) (value : Value) :
    (table.put key value).lookup key = some value := by
  simp [put]

theorem lookup_put_of_ne (table : Table Key Value) {key other : Key} (value : Value)
    (hNe : other ≠ key) : (table.put key value).lookup other = table.lookup other := by
  have hOther : (other == key) = false := by simpa using hNe
  simp [put, List.lookup_cons, hOther, lookup_erase_of_ne table hNe]

end Table

end Cadence
