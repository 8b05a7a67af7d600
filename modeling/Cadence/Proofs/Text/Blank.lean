import Mathlib.Data.List.TakeWhile
import Cadence.Proofs.Text.Decimal
import Cadence.Text.Blank

/-!
White space at both ends of a text is trimmed away, and nothing of what stands between (`trim_append`).
-/

namespace Cadence.Text

/-- White space. There may be none. -/
def Blanks := { text : String // ∀ c ∈ text.toList, isBlank c }

instance : ToString Blanks := ⟨Subtype.val⟩

variable {front word back : List Char} {c : Char}

theorem isBlank_of_isDigit (h : c.isDigit) : isBlank c = false := by
  have hCode := Decimal.isDigit_iff.mp h
  rw [isBlank, blanks, List.contains_eq_mem, decide_eq_false_iff_not]
  simp only [List.mem_cons, List.not_mem_nil, or_false]
  omega

theorem isBlank_of_mem_ofInt {n : Int} (h : c ∈ Decimal.ofInt n) : isBlank c = false := by
  rcases Decimal.isDigit_or_eq_of_mem_ofInt h with hDigit | rfl
  · exact isBlank_of_isDigit hDigit
  · decide

theorem trimStart_append (hWord : ∀ c ∈ word, isBlank c = false) (hSome : word ≠ []) (rest : List Char) :
    trimStart (word ++ rest) = word ++ rest := by
  cases word with
  | nil => exact absurd rfl hSome
  | cons first word =>
      have hFirst := hWord first List.mem_cons_self
      exact List.dropWhile_cons_of_neg (by rw [hFirst]; exact Bool.false_ne_true)

theorem trimStart_append_of_blank (hFront : ∀ c ∈ front, isBlank c) (rest : List Char) :
    trimStart (front ++ rest) = trimStart rest :=
  List.dropWhile_append_of_pos hFront

/-- What is trimmed are the blanks on both sides of a word. -/
theorem trim_append (hFront : ∀ c ∈ front, isBlank c) (hWord : ∀ c ∈ word, isBlank c = false)
    (hSome : word ≠ []) (hBack : ∀ c ∈ back, isBlank c) : trim (front ++ word ++ back) = word := by
  have hStart : trimStart (front ++ word ++ back) = word ++ back := by
    rw [List.append_assoc, trimStart_append_of_blank hFront, trimStart_append hWord hSome]
  have hEnd : trimStart (word ++ back).reverse = word.reverse := by
    rw [List.reverse_append, trimStart_append_of_blank (by simpa using hBack), ← List.append_nil word.reverse,
      trimStart_append (by simpa using hWord) (by simpa using hSome)]
  rw [trim, hStart, hEnd, List.reverse_reverse]

end Cadence.Text
