import Cadence.Proofs.Text.Blank
import Cadence.Rational.Text

/-!
The text of a fraction is read back as the same fraction, and white space around its parts changes nothing
(`ofText_spaced`). This holds of all parts, as a fraction is read as it stands and not reduced.
-/

namespace Cadence.Rational

open Text (Blanks)

section Parts

variable {text num : List Char} {n : Int32} {c : Char}

theorem toList_spaced (before after : Blanks) (n : Int32) :
    s!"{before}{n}{after}".toList
      = before.val.toList ++ Decimal.ofInt n.toInt ++ after.val.toList := by
  show (before.val ++ toString n.toInt ++ after.val).toList = _
  rw [String.toList_append, String.toList_append, Decimal.toList_toString]

/-- No slash stands in a part, so the first one is that between the parts. -/
theorem ne_slash_of_mem_spaced {before after : Blanks} (h : c ∈ s!"{before}{n}{after}".toList) :
    c ≠ '/' := by
  rintro rfl
  have hBlank : ¬ Text.isBlank '/' := by decide
  rw [toList_spaced, List.mem_append, List.mem_append] at h
  rcases h with (hBefore | hNumber) | hAfter
  · exact hBlank (before.property _ hBefore)
  · rcases Decimal.isDigit_or_eq_of_mem_ofInt hNumber with hDigit | hMinus
    · cases hDigit
    · cases hMinus
  · exact hBlank (after.property _ hAfter)

/-- A number between blanks is read as this number. -/
theorem part?_spaced (before after : Blanks) (n : Int32) :
    part? s!"{before}{n}{after}".toList = some n := by
  have hTrim : Text.trim s!"{before}{n}{after}".toList = Decimal.ofInt n.toInt := by
    rw [toList_spaced]
    exact Text.trim_append before.property (fun _ => Text.isBlank_of_mem_ofInt) (Decimal.ofInt_ne_nil _)
      after.property
  rw [part?, hTrim, Decimal.int?_ofInt n.minValue_le_toInt n.toInt_le, Option.map_some, Int32.ofInt_toInt]

theorem ofChars?_append_slash (h : ∀ c ∈ num, c ≠ '/') (den : List Char) :
    ofChars? (num ++ '/' :: den) = do return ⟨← part? num, ← part? den⟩ := by
  have hOther : ∀ c ∈ num, (c != '/') = true := fun c hMem => bne_iff_ne.mpr (h c hMem)
  rw [ofChars?, List.dropWhile_append_of_pos hOther, List.takeWhile_append_of_pos hOther]
  show (do return ⟨← part? (num ++ []), ← part? den⟩ : Option Rational) = _
  rw [List.append_nil]

theorem ofChars?_of_no_slash (h : ∀ c ∈ text, c ≠ '/') :
    ofChars? text = do return ⟨← part? text, 1⟩ := by
  have hNone : text.dropWhile (· != '/') = [] :=
    List.dropWhile_eq_nil_iff.mpr fun c hMem => bne_iff_ne.mpr (h c hMem)
  rw [ofChars?, hNone]

end Parts

/-- A fraction is written as two numbers with a slash between them. Whatever white space stands around them,
the same fraction is read, and a number alone is read as a whole. -/
theorem ofText_spaced (r : Rational) (n : Int32) (first second third fourth : Blanks) :
    r.toText = s!"{r.num}/{r.den}" ∧
      ofText s!"{first}{r.num}{second}/{third}{r.den}{fourth}" = .ok r ∧
      ofText s!"{first}{n}{second}" = .ok ⟨n, 1⟩ := by
  refine ⟨?_, ?_, ?_⟩
  · apply String.toList_inj.mp
    show _ = (toString r.num.toInt ++ "/" ++ toString r.den.toInt).toList
    rw [toText, toChars, String.toList_ofList, String.toList_append, String.toList_append,
      Decimal.toList_toString, Decimal.toList_toString, List.append_assoc]
    rfl
  · have hText : s!"{first}{r.num}{second}/{third}{r.den}{fourth}".toList
        = s!"{first}{r.num}{second}".toList ++ '/' :: s!"{third}{r.den}{fourth}".toList := by
      rw [toList_spaced, toList_spaced]
      show (first.val ++ toString r.num.toInt ++ second.val ++ "/" ++ third.val ++ toString r.den.toInt
        ++ fourth.val).toList = _
      simp only [String.toList_append, Decimal.toList_toString, List.append_assoc]
      rfl
    rw [ofText, hText, ofChars?_append_slash fun _ => ne_slash_of_mem_spaced, part?_spaced, part?_spaced]
    rfl
  · rw [ofText, ofChars?_of_no_slash fun _ => ne_slash_of_mem_spaced, part?_spaced]
    rfl

/-- An ideographic space stands in front, and a tab behind. -/
example : ofText "\u3000-30000 / 1001\t" = .ok ⟨-30000, 1001⟩ := by rfl

end Cadence.Rational
