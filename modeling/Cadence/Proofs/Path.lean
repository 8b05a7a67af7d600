import Mathlib.Data.List.DropRight
import Cadence.Path

/-!
The last name of a path. Going to a place through a directory ends with the names on the way from there
(`steps_join`), so the last name does not depend on the directory (`getLast?_steps_join`).
-/

namespace Cadence.Path

section Steps

variable {base name : String}

theorem steps_empty : steps "" = [] := by
  decide +kernel

theorem steps_append_slash (front back : String) : steps (front ++ "/" ++ back) = steps front ++ steps back := by
  have hText : (front ++ "/" ++ back).toList = front.toList ++ '/' :: back.toList := by
    rw [String.toList_append, String.toList_append, List.append_assoc]
    rfl
  rw [steps, hText, List.splitOn_append_cons_self, List.map_append, List.filter_append, steps, steps]

theorem steps_of_not_mem (hSlash : '/' ∉ name.toList) (hSome : name ≠ "") : steps name = [name] := by
  have hEmpty : (!name.isEmpty) = true := by
    rw [Bool.not_eq_true', Bool.eq_false_iff]
    exact mt String.isEmpty_iff.mp hSome
  rw [steps, List.splitOn_eq_singleton hSlash, List.map_singleton, String.ofList_toList]
  exact List.filter_cons_of_pos hEmpty

/-- A path from the root on does not depend on the base. -/
theorem join_of_startsWith (h : name.startsWith "/") : join base name = name := by
  rw [join, h, Bool.true_or, if_pos rfl]

/-- The steps to a place in a directory begin with those to the directory, unless the place has a path of
its own. -/
theorem steps_join (base : String) (h : ¬ name.startsWith "/") :
    steps (join base name) = steps base ++ steps name := by
  rw [join, Bool.eq_false_iff.mpr h, Bool.false_or]
  by_cases hEmpty : base.isEmpty
  · rw [if_pos hEmpty, String.isEmpty_iff.mp hEmpty, steps_empty, List.nil_append]
  · rw [if_neg hEmpty]
    split
    case isTrue hSlash =>
      obtain ⟨front, hFront⟩ := String.Slice.endsWith_string_iff.mp hSlash
      have hBase : base = String.ofList front ++ "/" := by
        rw [← String.toList_inj, String.toList_append, String.toList_ofList, hFront, String.copy_toSlice]
      have hSteps := steps_append_slash (String.ofList front) ""
      rw [String.append_empty, ← hBase, steps_empty, List.append_nil] at hSteps
      rw [hSteps]
      conv_lhs => rw [hBase]
      exact steps_append_slash (String.ofList front) name
    case isFalse => exact steps_append_slash base name

/-- A directory stands in front of a path that ends somewhere. -/
theorem getLast?_steps_join {last : String} (base : String) (h : (steps name).getLast? = some last) :
    (steps (join base name)).getLast? = some last := by
  by_cases hRoot : name.startsWith "/"
  · rw [join_of_startsWith hRoot, h]
  · rw [steps_join base hRoot, List.getLast?_append, h, Option.some_or]

end Steps

section FileNames

/-- The name of the file that a path leads to. There is none if the path leads upwards at its end. -/
def fileName? (path : String) : Option String :=
  ((steps path).filter (· ≠ here)).getLast?.filter (· ≠ parent)

theorem fileName?_of_getLast? {path last : String} (h : (steps path).getLast? = some last) (hHere : last ≠ here)
    (hParent : last ≠ parent) : fileName? path = some last := by
  obtain ⟨front, hSteps⟩ := List.getLast?_eq_some_iff.mp h
  rw [fileName?, hSteps, List.filter_append, List.filter_cons_of_pos (by simpa using hHere), List.filter_nil,
    List.getLast?_concat, Option.filter_some_pos (by simpa using hParent)]

/-- Text behind its last slash, all of it if it has none. -/
def behindSlash (text : String) : String :=
  String.ofList (text.toList.rtakeWhile (· ≠ '/'))

theorem not_mem_behindSlash (text : String) : '/' ∉ (behindSlash text).toList := by
  rw [behindSlash, String.toList_ofList]
  intro hMem
  simpa using List.mem_rtakeWhile_imp hMem

theorem behindSlash_of_not_mem {text : String} (h : '/' ∉ text.toList) : behindSlash text = text := by
  have hAll : text.toList.rtakeWhile (· ≠ '/') = text.toList := by
    rw [List.rtakeWhile_eq_self_iff]
    rintro c hMem
    exact decide_eq_true fun hSlash => h (hSlash ▸ hMem)
  rw [behindSlash, hAll, String.ofList_toList]

/-- A slash stands in front of what is behind the last one. -/
theorem eq_behindSlash_or_exists (text : String) :
    text = behindSlash text ∨ ∃ front, text = front ++ "/" ++ behindSlash text := by
  have hBehind : (behindSlash text).toList = text.toList.rtakeWhile (· ≠ '/') := String.toList_ofList
  have hText : text.toList.rdropWhile (· ≠ '/') ++ (behindSlash text).toList = text.toList := by
    rw [hBehind, List.rdropWhile_append_rtakeWhile]
  by_cases hFront : text.toList.rdropWhile (· ≠ '/') = []
  · refine .inl ?_
    rw [hFront, List.nil_append] at hText
    exact (String.toList_inj.mp hText).symm
  · refine .inr ⟨String.ofList (text.toList.rdropWhile (· ≠ '/')).dropLast, ?_⟩
    have hSlash : (text.toList.rdropWhile (· ≠ '/')).getLast hFront = '/' := by
      simpa using List.rdropWhile_last_not (fun c => decide (c ≠ '/')) text.toList hFront
    rw [← List.dropLast_concat_getLast hFront, hSlash] at hText
    rw [← String.toList_inj, String.toList_append, String.toList_append, String.toList_ofList]
    exact hText.symm

/-- What is put behind text belongs to its last step. -/
theorem getLast?_steps_append {rest : String} (text : String) (hSlash : '/' ∉ rest.toList) (hSome : rest ≠ "") :
    (steps (text ++ rest)).getLast? = some (behindSlash text ++ rest) := by
  have hLast : steps (behindSlash text ++ rest) = [behindSlash text ++ rest] := by
    apply steps_of_not_mem
    · rw [String.toList_append, List.mem_append]
      exact not_or.mpr ⟨not_mem_behindSlash text, hSlash⟩
    · rw [Ne, String.append_eq_empty_iff]
      exact fun hEmpty => hSome hEmpty.2
  rcases eq_behindSlash_or_exists text with hText | ⟨front, hText⟩
  · rw [← hText] at hLast ⊢
    rw [hLast, List.getLast?_singleton]
  · conv_lhs => rw [hText, String.append_assoc, steps_append_slash, hLast]
    exact List.getLast?_concat

end FileNames

end Cadence.Path
