import Mathlib.Data.List.Basic
import Cadence.Text.Bytes

/-!
Text that takes up as many bytes at the end of other text is the same (`append_inj_of_utf8Length_eq`).
-/

namespace Cadence.Text

variable {text other front back : List Char}

theorem utf8Length_append (front back : List Char) :
    utf8Length (front ++ back) = utf8Length front + utf8Length back := by
  induction front with
  | nil => exact (Nat.zero_add _).symm
  | cons c front ih => rw [List.cons_append, utf8Length, utf8Length, ih, Nat.add_assoc]

theorem utf8Length_of_utf8Size_eq_one (h : ∀ c ∈ text, c.utf8Size = 1) : utf8Length text = text.length := by
  induction text with
  | nil => rfl
  | cons c text ih =>
      rw [utf8Length, h c List.mem_cons_self, ih fun other hOther => h other (List.mem_cons_of_mem _ hOther),
        List.length_cons, Nat.add_comm]

/-- Every character takes a byte. -/
theorem eq_nil_of_utf8Length_eq_zero (h : utf8Length text = 0) : text = [] := by
  cases text with
  | nil => rfl
  | cons c text =>
      have hPositive := c.utf8Size_pos
      rw [utf8Length] at h
      omega

theorem append_inj_of_utf8Length_eq (h : front ++ text = back ++ other)
    (hLength : utf8Length text = utf8Length other) : front = back ∧ text = other := by
  rcases List.append_eq_append_iff.mp h with ⟨middle, rfl, rfl⟩ | ⟨middle, rfl, rfl⟩
  · have hMiddle : middle = [] := eq_nil_of_utf8Length_eq_zero (by rw [utf8Length_append] at hLength; omega)
    rw [hMiddle, List.append_nil, List.nil_append]
    exact ⟨rfl, rfl⟩
  · have hMiddle : middle = [] := eq_nil_of_utf8Length_eq_zero (by rw [utf8Length_append] at hLength; omega)
    rw [hMiddle, List.append_nil, List.nil_append]
    exact ⟨rfl, rfl⟩

end Cadence.Text
