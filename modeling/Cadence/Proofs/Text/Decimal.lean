import Mathlib.Algebra.Ring.Nat
import Cadence.Text.Decimal

/-!
Decimal text stands for the number that it was written for (`value_ofNat`), also with zeros in front
(`value_padded`). A whole number is read back from its text (`int?_ofInt`), which is the usual one
(`toList_toString`).
-/

namespace Cadence.Decimal

section Digits

variable {n : Nat} {c : Char}

theorem toNat_digit (h : n < 10) : (digit n).toNat = '0'.toNat + n := by
  have hValid : ('0'.toNat + n).isValidChar := .inl (by show 48 + n < 0xd800; omega)
  rw [digit, Char.ofNat, dif_pos hValid]
  rfl

theorem isDigit_iff : c.isDigit ↔ 48 ≤ c.toNat ∧ c.toNat ≤ 57 := by
  rw [Char.isDigit, Bool.and_eq_true, decide_eq_true_iff, decide_eq_true_iff, ge_iff_le,
    UInt32.le_iff_toNat_le, UInt32.le_iff_toNat_le]
  rfl

theorem isDigit_digit (h : n < 10) : (digit n).isDigit := by
  have hCode : (digit n).toNat = 48 + n := toNat_digit h
  rw [isDigit_iff]
  omega

theorem isDigit_of_mem_ofNat (h : c ∈ ofNat n) : c.isDigit := by
  induction n using ofNat.induct with
  | case1 n hSmall =>
      rw [ofNat, if_pos hSmall, List.mem_singleton] at h
      exact h ▸ isDigit_digit hSmall
  | case2 n hLarge ih =>
      rw [ofNat, if_neg hLarge, List.mem_append, List.mem_singleton] at h
      rcases h with hFront | rfl
      · exact ih hFront
      · exact isDigit_digit (Nat.mod_lt _ (by decide))

theorem value_concat (digits : List Char) (c : Char) :
    value (digits ++ [c]) = 10 * value digits + (c.toNat - '0'.toNat) := by
  rw [value, List.foldl_append]
  rfl

theorem value_ofNat (n : Nat) : value (ofNat n) = n := by
  induction n using ofNat.induct with
  | case1 n hSmall =>
      have hValue : value [digit n] = (digit n).toNat - '0'.toNat := Nat.zero_add _
      rw [ofNat, if_pos hSmall, hValue, toNat_digit hSmall, Nat.add_sub_cancel_left]
  | case2 n hLarge ih =>
      rw [ofNat, if_neg hLarge, value_concat, ih, toNat_digit (Nat.mod_lt _ (by decide)),
        Nat.add_sub_cancel_left, Nat.div_add_mod]

theorem length_ofNat_le {width : Nat} (h : n < 10 ^ (width + 1)) : (ofNat n).length ≤ width + 1 := by
  induction width generalizing n with
  | zero =>
      rw [ofNat, if_pos (by omega)]
      exact Nat.le_refl 1
  | succ width ih =>
      rw [ofNat]
      split
      case isTrue => exact Nat.le_add_left 1 _
      case isFalse =>
        have hQuotient : n / 10 < 10 ^ (width + 1) := by
          rw [Nat.div_lt_iff_lt_mul (by decide), ← Nat.pow_succ]
          exact h
        rw [List.length_append, List.length_singleton]
        exact Nat.succ_le_succ (ih hQuotient)

theorem ofNat_ne_nil (n : Nat) : ofNat n ≠ [] := by
  rw [ofNat]
  split
  case isTrue => exact List.cons_ne_nil _ _
  case isFalse => exact List.concat_ne_nil _ _

theorem ofNat_eq_toDigits (n : Nat) : ofNat n = Nat.toDigits 10 n := by
  have hDigit : ∀ value < 10, digit value = value.digitChar := by decide
  induction n using ofNat.induct with
  | case1 n hSmall => rw [ofNat, if_pos hSmall, Nat.toDigits_of_lt_base hSmall, hDigit n hSmall]
  | case2 n hLarge ih =>
      rw [ofNat, if_neg hLarge, ih, Nat.toDigits_of_base_le (by decide) (Nat.le_of_not_lt hLarge),
        hDigit _ (Nat.mod_lt _ (by decide))]

/-- The digits of a number are read back as this number. -/
theorem digits?_ofNat (n : Nat) : digits? (ofNat n) = some n := by
  have hSome : (ofNat n).isEmpty = false := by
    rw [← Bool.not_eq_true, List.isEmpty_iff]
    exact ofNat_ne_nil n
  have hDigits : (ofNat n).all Char.isDigit := List.all_eq_true.mpr fun c => isDigit_of_mem_ofNat
  rw [digits?, hSome, hDigits, value_ofNat]
  rfl

end Digits

section Integers

theorem toList_toString (n : Int) : (toString n).toList = ofInt n := by
  have hNat (n : Nat) : n.repr.toList = ofNat n := by
    rw [Nat.repr_eq_ofList_toDigits, String.toList_ofList, ofNat_eq_toDigits]
  cases n with
  | ofNat n => exact hNat n
  | negSucc n =>
      show ("-" ++ (n + 1).repr).toList = '-' :: ofNat (n + 1)
      rw [String.toList_append, hNat]
      rfl

theorem ofInt_ne_nil (n : Int) : ofInt n ≠ [] := by
  cases n with
  | ofNat n => exact ofNat_ne_nil n
  | negSucc n => exact List.cons_ne_nil _ _

theorem isDigit_or_eq_of_mem_ofInt {n : Int} {c : Char} (h : c ∈ ofInt n) : c.isDigit ∨ c = '-' := by
  cases n with
  | ofNat n => exact .inl (isDigit_of_mem_ofNat h)
  | negSucc n =>
      rcases List.mem_cons.mp h with rfl | hDigit
      · exact .inr rfl
      · exact .inl (isDigit_of_mem_ofNat hDigit)

/-- No number without a sign begins with one. -/
theorem ofNat_ne_cons {n : Nat} {c : Char} (h : c.isDigit = false) (text : List Char) :
    ofNat n ≠ c :: text := by
  intro hText
  have hDigit : c.isDigit := isDigit_of_mem_ofNat (hText ▸ List.mem_cons_self)
  rw [h] at hDigit
  cases hDigit

/-- A number within range is read back from its text. -/
theorem int?_ofInt {least largest n : Int} (hLeast : least ≤ n) (hLargest : n ≤ largest) :
    int? least largest (ofInt n) = some n := by
  have hRange : (some n).filter (fun n => least ≤ n && n ≤ largest) = some n :=
    Option.filter_some_pos (by simp [hLeast, hLargest])
  unfold int?
  cases n with
  | ofNat n =>
      dsimp only [ofInt]
      split
      case h_1 text hPlus => exact absurd hPlus (ofNat_ne_cons (by decide) text)
      case h_2 text hMinus => exact absurd hMinus (ofNat_ne_cons (by decide) text)
      case h_3 => rw [digits?_ofNat, Option.map_some, hRange]
  | negSucc n =>
      show ((digits? (ofNat (n + 1))).map fun n => -Int.ofNat n).filter _ = _
      rw [digits?_ofNat, Option.map_some]
      exact hRange

end Integers

section Padded

variable {n width : Nat}

theorem isDigit_of_mem_padded (width n : Nat) : ∀ c ∈ padded width n, c.isDigit := by
  intro c hMem
  rcases List.mem_append.mp hMem with hZero | hDigit
  · rw [List.eq_of_mem_replicate hZero]
    decide
  · exact isDigit_of_mem_ofNat hDigit

theorem value_replicate_zero_append (count : Nat) (digits : List Char) :
    value (List.replicate count '0' ++ digits) = value digits := by
  induction count with
  | zero => rfl
  | succ count ih => exact ih

theorem value_padded (width n : Nat) : value (padded width n) = n := by
  rw [padded, value_replicate_zero_append, value_ofNat]

theorem length_padded (h : n < 10 ^ (width + 1)) : (padded (width + 1) n).length = width + 1 := by
  have hLength := length_ofNat_le h
  rw [padded, List.length_append, List.length_replicate]
  omega

end Padded

end Cadence.Decimal
