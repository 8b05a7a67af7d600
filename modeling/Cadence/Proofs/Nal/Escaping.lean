import Cadence.Nal.Escape
import Cadence.Proofs.Nal.StartCodes

/-!
Escape bytes keep start codes out of a payload and are taken out again without a loss. An escaped
payload behind a header byte holds no start code (`occurs_escape`), and it ends with the byte that the
payload ends with (`getLast?_escape`).
-/

namespace Cadence.Nal

/-- Escape bytes are taken out where they were put in. -/
theorem unescapeAfter_escapeAfter (zeros : Nat) (data : Bytes) :
    unescapeAfter zeros (escapeAfter zeros data) = data := by
  fun_induction escapeAfter zeros data with
  | case1 => rfl
  | case2 zeros byte data hEscape ih =>
      rw [unescapeAfter, if_pos ⟨hEscape.1, rfl⟩, unescapeAfter, if_neg (by simp), ih]
  | case3 zeros byte data hPlain ih =>
      have hOther : ¬ (zeros ≥ 2 ∧ byte = 3) := by
        rintro ⟨hZeros, rfl⟩
        exact hPlain ⟨hZeros, by decide⟩
      rw [unescapeAfter, if_neg hOther, ih]

/-- Escaped data is read back as it was. -/
theorem unescape_escape (data : Bytes) : unescape (escape data) = data :=
  unescapeAfter_escapeAfter 0 data

namespace StartCode

/-- Zero bytes begin a start code only if there are two of them in front of a byte 1. -/
theorem occurs_zeros {zeros : Nat} {byte : UInt8} (hByte : byte ≠ 0) (h : zeros < 2 ∨ byte ≠ 1)
    (rest : Bytes) : occurs (List.replicate zeros 0 ++ byte :: rest) = occurs rest := by
  induction zeros with
  | zero => simp [occurs, hByte]
  | succ zeros ih =>
      have hHere : startsHere (0 :: (List.replicate zeros 0 ++ byte :: rest)) = false := by
        rcases zeros with _ | _ | zeros
        · exact startsHere_zero_of_ne_zero hByte rest
        · have hOther : byte ≠ 1 := h.resolve_left (by omega)
          exact (startsHere_zeros byte rest).trans (beq_eq_false_iff_ne.mpr hOther)
        · exact startsHere_zeros 0 _
      rw [List.replicate_succ, List.cons_append, occurs, hHere, Bool.false_or]
      exact ih (h.imp_left fun h => by omega)

theorem occurs_replicate (zeros : Nat) : occurs (List.replicate zeros 0) = false := by
  induction zeros with
  | zero => rfl
  | succ zeros ih =>
      have hHere : startsHere (0 :: List.replicate zeros 0) = false := by
        match zeros with
        | 0 | 1 => rfl
        | zeros + 2 => exact startsHere_zeros 0 _
      rw [List.replicate_succ, occurs, hHere, ih]
      rfl

/-- No start code arises in an escaped payload, nor with the zero bytes in front of it that were taken
into account. -/
theorem occurs_escapeAfter (zeros : Nat) (data : Bytes) :
    occurs (List.replicate zeros 0 ++ escapeAfter zeros data) = false := by
  fun_induction escapeAfter zeros data with
  | case1 zeros => rw [List.append_nil, occurs_replicate]
  | case2 zeros byte data _ ih =>
      rw [occurs_zeros (by decide) (.inr (by decide))]
      by_cases hByte : byte = 0
      · subst hByte
        exact ih
      · rw [countZeros, if_neg hByte] at ih
        rw [occurs, startsHere_of_ne_zero hByte, countZeros, if_neg hByte]
        exact ih
  | case3 zeros byte data hPlain ih =>
      by_cases hByte : byte = 0
      · subst hByte
        rw [countZeros, if_pos rfl, List.replicate_succ', List.append_assoc] at ih
        exact ih
      · have hOther : zeros < 2 ∨ byte ≠ 1 := by
          by_contra hBoth
          rw [not_or, not_lt, not_not] at hBoth
          exact hPlain ⟨hBoth.1, hBoth.2 ▸ by decide⟩
        rw [countZeros, if_neg hByte] at ih ⊢
        rw [occurs_zeros hByte hOther]
        exact ih

/-- No start code arises in escaped data behind a header byte. -/
theorem occurs_escape {header : UInt8} (h : header ≠ 0) (data : Bytes) :
    occurs (header :: escape data) = false := by
  rw [occurs, startsHere_of_ne_zero h]
  exact occurs_escapeAfter 0 data

end StartCode

/-- Escaping leaves the last byte in its place. -/
theorem getLast?_escapeAfter (zeros : Nat) (data : Bytes) :
    (escapeAfter zeros data).getLast? = data.getLast? := by
  fun_induction escapeAfter zeros data with
  | case1 => rfl
  | case2 zeros byte data _ ih => rw [List.getLast?_cons_cons, List.getLast?_cons, List.getLast?_cons, ih]
  | case3 zeros byte data _ ih => rw [List.getLast?_cons, List.getLast?_cons, ih]

/-- A payload ends with the same byte before and after it is escaped. -/
theorem getLast?_escape (data : Bytes) : (escape data).getLast? = data.getLast? :=
  getLast?_escapeAfter 0 data

end Cadence.Nal
