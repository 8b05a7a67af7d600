import Cadence.Proofs.Outcome
import Cadence.Proofs.Table
import Cadence.Template

/-!
Templates that are loaded from a directory. The template for a picture size is that of the last file in the
list that is named for the size (`lookup_load`). So the order of the list does not matter exactly if the files
that are named for one size hold the same template (`load_perm_iff`).
-/

namespace Cadence

/-- No step leads away from the root. -/
theorem Path.steps_root : steps "/" = [] := by
  decide +kernel

/-- What is listed at the root of a tree is the tree. -/
theorem Directory.list_root {Content : Type} (root : Directory Content) : root.list "/" = .ok root := by
  have hCheck : Path.check "/" = .ok () := by decide +kernel
  rw [list, hCheck, Path.steps_root]
  rfl

namespace TemplateTable

/-- The template that an entry of a directory brings along, with the size that it is named for. -/
def template? : String × Node Bytes → Option (Resolution × Bytes)
  | (_, .folder _) => none
  | (name, .file data) =>
    let parts := FileName.splitExtension name.toList
    if parts.2 = some ['b', 'i', 'n'] ∧ data ≠ [] then (Resolution.ofChars? parts.1).map (·, data)
    else none

/-- The templates in a directory, in the order of its list. -/
def templates (entries : Directory Bytes) : List (Resolution × Bytes) :=
  entries.filterMap template?

/-- Loading an entry stores its template, and does nothing if it has none. -/
theorem result_loadEntry (path : String) (table : TemplateTable) (entry : String × Node Bytes) :
    (loadEntry path table entry).result
      = .ok (match template? entry with
        | some (size, data) => table.put size data
        | none => table) := by
  obtain ⟨name, data | entries⟩ := entry
  · unfold loadEntry template?
    dsimp only
    split
    case h_1 stem hName =>
      rw [hName]
      dsimp only
      cases data with
      | nil => cases Resolution.ofChars? stem <;> rfl
      | cons byte rest => cases Resolution.ofChars? stem <;> rfl
    case h_2 hOther =>
      rw [if_neg fun hBin => hOther _ (Prod.ext rfl hBin.1)]
      rfl
  · rfl

/-- Every list of entries is loaded, and a later template for a size replaces an earlier one. -/
theorem lookup_foldlM (path : String) (entries : Directory Bytes) (table : TemplateTable) :
    ∃ loaded, (entries.foldlM (loadEntry path) table).result = .ok loaded ∧
      ∀ size, loaded.lookup size
        = ((templates entries).reverse.lookup size).or (table.lookup size) := by
  induction entries generalizing table with
  | nil => exact ⟨table, rfl, fun _ => rfl⟩
  | cons entry entries ih =>
      rw [List.foldlM_cons, Outcome.result_bind, result_loadEntry]
      cases hEntry : template? entry with
      | none =>
          rw [templates, List.filterMap_cons_none hEntry]
          exact ih table
      | some pair =>
          obtain ⟨size, data⟩ := pair
          obtain ⟨loaded, hLoaded, hLookup⟩ := ih (table.put size data)
          refine ⟨loaded, hLoaded, fun other => ?_⟩
          rw [hLookup, templates, templates, List.filterMap_cons_some hEntry, List.reverse_cons,
            List.lookup_append, Option.or_assoc]
          congr 1
          rw [Table.lookup_put, List.lookup_cons]
          by_cases hSize : other = size
          · simp [hSize]
          · simp [hSize, beq_eq_false_iff_ne.mpr hSize]

/-- The template for a size is that of the last file that is named for it. -/
theorem lookup_load {root : Directory Bytes} {path : String} {entries : Directory Bytes}
    (h : root.list path = .ok entries) :
    ∃ table, (load root path).result = .ok table ∧
      ∀ size, table.lookup size = (templates entries).reverse.lookup size := by
  obtain ⟨table, hTable, hLookup⟩ := lookup_foldlM path entries []
  refine ⟨table, ?_, fun size => (hLookup size).trans Option.or_none⟩
  rw [load, h]
  exact hTable

/-- Of the templates for one size, a table that was loaded has the last one. -/
theorem lookup_of_load {root : Directory Bytes} {path : String} {entries : Directory Bytes}
    {table : TemplateTable} (hTable : (load root path).result = .ok table)
    (h : root.list path = .ok entries) (size : Resolution) :
    table.lookup size = (templates entries).reverse.lookup size := by
  obtain ⟨found, hFound, hLookup⟩ := lookup_load h
  cases hTable.symm.trans hFound
  exact hLookup size

/-- Files that are named for one size hold the same template. -/
def Unambiguous (entries : Directory Bytes) : Prop :=
  ∀ size data other, (size, data) ∈ templates entries → (size, other) ∈ templates entries → data = other

/-- If sizes are not named with different templates, the templates found are those in the list. -/
theorem Unambiguous.lookup_iff {entries listed : Directory Bytes} (h : Unambiguous entries)
    (hPerm : listed.Perm entries) {size : Resolution} {data : Bytes} :
    (templates listed).reverse.lookup size = some data ↔ (size, data) ∈ templates entries := by
  have hTemplates : (templates listed).reverse.Perm (templates entries) :=
    (List.reverse_perm _).trans (hPerm.filterMap template?)
  rw [Table.lookup_eq_some_iff_mem, hTemplates.mem_iff]
  intro key value other hValue hOther
  exact h key value other (hTemplates.mem_iff.mp hValue) (hTemplates.mem_iff.mp hOther)

theorem exists_concat_perm {entries : Directory Bytes} {entry : String × Node Bytes}
    (h : entry ∈ entries) : ∃ before : Directory Bytes, (before ++ [entry]).Perm entries := by
  obtain ⟨before, after, rfl⟩ := List.append_of_mem h
  exact ⟨before ++ after, by
    rw [List.append_assoc]
    exact (List.perm_append_comm : (after ++ [entry]).Perm _).append_left before⟩

/-- The last file that is named for a size counts. -/
theorem lookup_templates_concat {entries : Directory Bytes} {entry : String × Node Bytes}
    {size : Resolution} {data : Bytes} (h : template? entry = some (size, data)) :
    (templates (entries ++ [entry])).reverse.lookup size = some data := by
  rw [templates, List.filterMap_append, List.filterMap_cons_some h, List.reverse_append]
  simp

/-- The tables that are loaded from a directory in two orders of its list have the same template for every
size, whatever the orders, exactly if the files that are named for one size hold the same template. -/
theorem load_perm_iff (entries : Directory Bytes) :
    (∀ (root other : Directory Bytes) (path : String) (left right : Directory Bytes),
      root.list path = .ok left → other.list path = .ok right →
      left.Perm entries → right.Perm entries →
      ∃ table otherTable, (load root path).result = .ok table ∧
        (load other path).result = .ok otherTable ∧
        ∀ size, table.lookup size = otherTable.lookup size) ↔ Unambiguous entries := by
  constructor
  · intro hSame size data other hData hOther
    obtain ⟨first, hFirst, hFirstData⟩ := List.mem_filterMap.mp hData
    obtain ⟨second, hSecond, hSecondData⟩ := List.mem_filterMap.mp hOther
    -- each of the two files may stand last
    obtain ⟨before, hBefore⟩ := exists_concat_perm hFirst
    obtain ⟨otherBefore, hOtherBefore⟩ := exists_concat_perm hSecond
    obtain ⟨table, otherTable, hTable, hOtherTable, hLookup⟩ := hSame _ _ "/" _ _
      (Directory.list_root _) (Directory.list_root _) hBefore hOtherBefore
    have hLast := (lookup_of_load hTable (Directory.list_root _) size).trans
      (lookup_templates_concat hFirstData)
    have hOtherLast := (lookup_of_load hOtherTable (Directory.list_root _) size).trans
      (lookup_templates_concat hSecondData)
    rw [hLookup, hOtherLast] at hLast
    exact (Option.some.inj hLast).symm
  · intro hSame root other path left right hLeft hRight hLeftPerm hRightPerm
    obtain ⟨table, hTable, hLookup⟩ := lookup_load hLeft
    obtain ⟨otherTable, hOtherTable, hOtherLookup⟩ := lookup_load hRight
    refine ⟨table, otherTable, hTable, hOtherTable, fun size => ?_⟩
    ext data
    rw [hLookup, hOtherLookup, hSame.lookup_iff hLeftPerm, hSame.lookup_iff hRightPerm]

/-- Two files that are named for the same size. -/
def sampleTwins : Directory Bytes :=
  [("1x1.bin", .file [0xAA]), ("1X1.bin", .file [0xBB])]

/-- The same directory, listed in another order. -/
def sampleSwapped : Directory Bytes :=
  sampleTwins.reverse

/-- The template for the size is that of the file which is listed last. -/
theorem load_sampleTwins :
    (Table.keys sampleTwins).Nodup ∧ sampleSwapped.Perm sampleTwins ∧
      sampleTwins.list "/" = .ok sampleTwins ∧ sampleSwapped.list "/" = .ok sampleSwapped ∧
      ∃ table other, (load sampleTwins "/").result = .ok table ∧
        (load sampleSwapped "/").result = .ok other ∧
        table.lookup ⟨1, 1⟩ = some [0xBB] ∧ other.lookup ⟨1, 1⟩ = some [0xAA] := by
  obtain ⟨table, hTable, hLookup⟩ := lookup_load (Directory.list_root sampleTwins)
  obtain ⟨other, hOther, hOtherLookup⟩ := lookup_load (Directory.list_root sampleSwapped)
  refine ⟨by decide, List.reverse_perm _, Directory.list_root _, Directory.list_root _, table, other,
    hTable, hOther, ?_, ?_⟩
  · rw [hLookup]
    decide +kernel
  · rw [hOtherLookup]
    decide +kernel

end TemplateTable

end Cadence
