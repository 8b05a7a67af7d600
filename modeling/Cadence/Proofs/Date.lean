import Mathlib.Data.List.TakeWhile
import Cadence.Date
import Cadence.Proofs.Text.Blank
import Cadence.Proofs.Text.Bytes

/-!
The text of a day. Days of years with up to four digits are written in ten characters, and read back from
them (`ofChars?_toChars`).
-/

namespace Cadence

namespace Date

section Parts

variable {digits rest : List Char} {c : Char}

theorem utf8Size_of_isDigit (h : c.isDigit) : c.utf8Size = 1 := by
  rw [Char.utf8Size_eq_one_iff, UInt32.le_iff_toNat_le]
  exact (Decimal.isDigit_iff.mp h).2.trans (by decide)

theorem trimStart_append (hDigits : ∀ c ∈ digits, c.isDigit) (hSome : digits ≠ []) (rest : List Char) :
    Text.trimStart (digits ++ rest) = digits ++ rest :=
  Text.trimStart_append (fun c hMem => Text.isBlank_of_isDigit (hDigits c hMem)) hSome rest

/-- As many digits are taken as are asked for. -/
theorem takeNumber_append (hDigits : ∀ c ∈ digits, c.isDigit) (hSome : digits ≠ []) (rest : List Char) :
    takeNumber digits.length (digits ++ rest) = some (Decimal.value digits, rest) := by
  have hTaken : ((digits ++ rest).take digits.length).takeWhile Char.isDigit = digits := by
    rw [List.take_left, List.takeWhile_eq_self_iff.mpr hDigits]
  have hEmpty : ¬ digits.isEmpty := by rwa [List.isEmpty_iff]
  rw [takeNumber, hTaken, if_neg hEmpty, List.drop_left]

theorem takePart_append (hDigits : ∀ c ∈ digits, c.isDigit) (hLength : digits.length = 2) (rest : List Char) :
    takePart ('-' :: digits ++ rest) = some (Decimal.value digits, rest) := by
  have hSome : digits ≠ [] := by rintro rfl; cases hLength
  rw [List.cons_append, takePart, trimStart_append hDigits hSome, ← hLength, takeNumber_append hDigits hSome]

theorem isDigit_of_append_eq_cons {text : List Char} (hDigits : ∀ c ∈ digits, c.isDigit) (hSome : digits ≠ [])
    (h : digits ++ rest = c :: text) : c.isDigit := by
  cases digits with
  | nil => exact absurd rfl hSome
  | cons first digits =>
      obtain ⟨rfl, -⟩ := List.cons.inj h
      exact hDigits first List.mem_cons_self

theorem takeYear_append (hDigits : ∀ c ∈ digits, c.isDigit) (hLength : digits.length = 4) (rest : List Char) :
    takeYear (digits ++ rest) = some (Int.ofNat (Decimal.value digits), rest) := by
  have hSome : digits ≠ [] := by rintro rfl; cases hLength
  rw [takeYear, trimStart_append hDigits hSome]
  split
  case h_1 text hMinus => cases isDigit_of_append_eq_cons hDigits hSome hMinus
  case h_2 text hPlus => cases isDigit_of_append_eq_cons hDigits hSome hPlus
  case h_3 => rw [← hLength, takeNumber_append hDigits hSome, Option.map_some]

end Parts

section Texts

variable {date : Date}

theorem month_le (date : Date) : date.month ≤ 12 := by
  have hValid := date.valid
  simp only [isDay, Bool.and_eq_true, decide_eq_true_eq] at hValid
  omega

theorem day_le (date : Date) : date.day ≤ 31 := by
  have hValid := date.valid
  simp only [isDay, Bool.and_eq_true, decide_eq_true_eq] at hValid
  have hMonth : daysInMonth date.year date.month ≤ 31 := by
    unfold daysInMonth
    repeat' split
    all_goals decide
  omega

theorem yearText_of_le {year : Int} (hFrom : 0 ≤ year) (hTill : year ≤ 9999) :
    yearText year = Decimal.padded 4 year.natAbs := by
  rw [yearText, if_neg (by omega), if_neg (by omega)]

theorem length_yearText (hFrom : 0 ≤ date.year) (hTill : date.year ≤ 9999) :
    (Decimal.padded 4 date.year.natAbs).length = 4 :=
  Decimal.length_padded (by omega)

theorem length_monthText (date : Date) : (Decimal.padded 2 date.month).length = 2 :=
  Decimal.length_padded (date.month_le.trans_lt (by decide))

theorem length_dayText (date : Date) : (Decimal.padded 2 date.day).length = 2 :=
  Decimal.length_padded (date.day_le.trans_lt (by decide))

/-- What is written for a day is read as the same day. -/
theorem ofChars?_toChars (hFrom : 0 ≤ date.year) (hTill : date.year ≤ 9999) :
    ofChars? date.toChars = some date := by
  have hLast := takePart_append (Decimal.isDigit_of_mem_padded 2 date.day) date.length_dayText []
  rw [List.append_nil] at hLast
  have hParts : ofParts? (Int.ofNat date.year.natAbs) date.month date.day = some date := by
    rw [Int.ofNat_eq_natCast, Int.natAbs_of_nonneg hFrom]
    exact dif_pos date.valid
  rw [ofChars?, toChars, yearText_of_le hFrom hTill, List.append_assoc,
    takeYear_append (Decimal.isDigit_of_mem_padded 4 date.year.natAbs) (length_yearText hFrom hTill),
    Decimal.value_padded]
  simp only [Option.bind_eq_bind, Option.bind_some]
  rw [takePart_append (Decimal.isDigit_of_mem_padded 2 date.month) date.length_monthText, Decimal.value_padded]
  simp only [Option.bind_some]
  rw [hLast, Decimal.value_padded]
  exact hParts

theorem isDigit_or_eq_of_mem_toChars {c : Char} (hFrom : 0 ≤ date.year) (hTill : date.year ≤ 9999)
    (h : c ∈ date.toChars) : c.isDigit ∨ c = '-' := by
  rw [toChars, yearText_of_le hFrom hTill] at h
  simp only [List.mem_append, List.mem_cons] at h
  rcases h with (hYear | rfl | hMonth) | rfl | hDay
  · exact .inl (Decimal.isDigit_of_mem_padded _ _ c hYear)
  · exact .inr rfl
  · exact .inl (Decimal.isDigit_of_mem_padded _ _ c hMonth)
  · exact .inr rfl
  · exact .inl (Decimal.isDigit_of_mem_padded _ _ c hDay)

theorem utf8Length_toChars (hFrom : 0 ≤ date.year) (hTill : date.year ≤ 9999) :
    Text.utf8Length date.toChars = 10 := by
  have hSize (c : Char) (hMem : c ∈ date.toChars) : c.utf8Size = 1 := by
    rcases isDigit_or_eq_of_mem_toChars hFrom hTill hMem with hDigit | rfl
    · exact utf8Size_of_isDigit hDigit
    · decide
  rw [Text.utf8Length_of_utf8Size_eq_one hSize, toChars, yearText_of_le hFrom hTill, List.length_append,
    List.length_append, List.length_cons, List.length_cons, length_yearText hFrom hTill, length_monthText,
    length_dayText]

end Texts

end Date

end Cadence
