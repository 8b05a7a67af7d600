import Mathlib.Data.List.Nodup
import Mathlib.Data.List.Perm.Basic
import Cadence.Table

/-!
Tables in which every key stands once. Such a table is what its lookups say: the order of its entries does
not matter to them (`lookup_eq_of_perm`), and tables with the same lookups are the same up to that order
(`perm_of_lookup_eq`).
-/

namespace Cadence.Table

variable {Key Value : Type} {table other : Table Key Value}

/-- The keys in the order of the list. -/
def keys (table : Table Key Value) : List Key :=
  table.map Prod.fst

theorem keys_perm (h : table.Perm other) : (keys table).Perm (keys other) :=
  h.map Prod.fst

variable [DecidableEq Key] {key : Key} {value : Value}

theorem lookup_put (table : Table Key Value) (key other : Key) (value : Value) :
    (table.put key value).lookup other = if other = key then some value else table.lookup other := by
  split
  case isTrue hSame => rw [hSame, lookup_put_self]
  case isFalse hOther => rw [lookup_put_of_ne table value hOther]

theorem keys_nodup_erase (h : (keys table).Nodup) (key : Key) : (keys (table.erase key)).Nodup :=
  h.sublist (List.filter_sublist.map Prod.fst)

theorem key_notMem_erase (table : Table Key Value) (key : Key) : key ∉ keys (table.erase key) := by
  simp [keys, erase]

theorem keys_nodup_put (h : (keys table).Nodup) (key : Key) (value : Value) :
    (keys (table.put key value)).Nodup :=
  List.nodup_cons.mpr ⟨key_notMem_erase table key, keys_nodup_erase h key⟩

theorem isSome_lookup_iff (table : Table Key Value) (key : Key) :
    (table.lookup key).isSome ↔ key ∈ keys table := by
  induction table with
  | nil => simp [keys]
  | cons entry table ih =>
      rw [List.lookup_cons, keys, List.map_cons, List.mem_cons]
      by_cases hKey : key = entry.1
      · simp [hKey]
      · have hOther : (key == entry.1) = false := by simpa using hKey
        rw [hOther]
        exact ih.trans (by simp [hKey, keys])

/-- Where no key has two values, a lookup finds what the table holds. -/
theorem lookup_eq_some_iff_mem
    (h : ∀ key value other, (key, value) ∈ table → (key, other) ∈ table → value = other) :
    table.lookup key = some value ↔ (key, value) ∈ table := by
  constructor
  · intro hFound
    obtain ⟨front, back, rfl, _⟩ := List.lookup_eq_some_iff.mp hFound
    exact List.mem_append_right _ List.mem_cons_self
  · intro hMem
    obtain ⟨found, hFound⟩ : ∃ found, table.lookup key = some found :=
      Option.isSome_iff_exists.mp ((isSome_lookup_iff table key).mpr (List.mem_map_of_mem hMem))
    obtain ⟨front, back, rfl, _⟩ := List.lookup_eq_some_iff.mp hFound
    rw [hFound, h key found value (List.mem_append_right _ List.mem_cons_self) hMem]

theorem lookup_eq_some_iff (h : (keys table).Nodup) :
    table.lookup key = some value ↔ (key, value) ∈ table :=
  lookup_eq_some_iff_mem fun _ _ _ hValue hOther =>
    congrArg Prod.snd (List.inj_on_of_nodup_map h hValue hOther rfl)

/-- With each key once, the order of a table does not matter. -/
theorem lookup_eq_of_perm (h : (keys table).Nodup) (hPerm : table.Perm other) (key : Key) :
    table.lookup key = other.lookup key := by
  have hOther : (keys other).Nodup := (keys_perm hPerm).nodup_iff.mp h
  ext value
  rw [lookup_eq_some_iff h, lookup_eq_some_iff hOther, hPerm.mem_iff]

/-- Tables with each key once and the same values differ in their order only. -/
theorem perm_of_lookup_eq (h : (keys table).Nodup) (hOther : (keys other).Nodup)
    (hSame : ∀ key, table.lookup key = other.lookup key) : table.Perm other := by
  rw [List.perm_ext_iff_of_nodup h.of_map hOther.of_map]
  rintro ⟨key, value⟩
  rw [← lookup_eq_some_iff h, ← lookup_eq_some_iff hOther, hSame]

/-- A key stands once in the list if it is there. -/
theorem count_keys (h : (keys table).Nodup) (key : Key) :
    (keys table).count key = if (table.lookup key).isSome then 1 else 0 := by
  rw [h.count]
  exact if_congr (isSome_lookup_iff table key).symm rfl rfl

end Cadence.Table
