import Cadence.Proofs.Nal.EscapePlaces

/-!
The form of payloads with escape bytes: two zero bytes stand before no byte of at most 2, and before a byte
3 only if that byte is an escape byte, which a byte of at most 3 follows (`Escaped`). Putting escape bytes in
and taking them out are inverse to each other between all payloads and those of this form (`escape_inverse`).
-/

namespace Cadence.Nal

/-- The form of a payload with escape bytes. -/
structure Escaped (data : Bytes) : Prop where
  /-- None of 00 00 00, 00 00 01 and 00 00 02 occurs. -/
  apart : ∀ byte : UInt8, byte ≤ 2 → ¬ [0, 0, byte] <:+: data
  /-- Each 00 00 03 is followed by a byte of at most 3. -/
  followed : ∀ front back, data = front ++ 0 :: 0 :: 3 :: back → ∃ next ∈ back.head?, next ≤ 3

/-- What the form asks of the byte that two zero bytes precede and of the byte behind it. -/
def Admits (byte : UInt8) (back : Bytes) : Prop :=
  3 ≤ byte ∧ (byte = 3 → ∃ next ∈ back.head?, next ≤ 3)

section Form

/-- No bytes at all are in escaped form. -/
theorem escaped_nil : Escaped [] where
  apart byte _ h := by simp at h
  followed front back h := by simp at h

/-- Where the form holds behind the first byte, only the first byte itself can break it. -/
theorem escaped_cons (byte : UInt8) (data : Bytes) :
    Escaped (byte :: data) ↔
      (∀ third back, byte :: data = 0 :: 0 :: third :: back → Admits third back) ∧ Escaped data := by
  constructor
  · intro h
    refine ⟨fun third back hData => ⟨?_, ?_⟩, ⟨fun other hOther hIn => ?_, fun front back hData => ?_⟩⟩
    · by_contra hSmall
      have hTwo : third ≤ 2 := by
        rw [UInt8.le_iff_toNat_le] at hSmall ⊢
        exact Nat.le_of_lt_succ (Nat.not_le.mp hSmall)
      exact h.apart third hTwo ⟨[], back, hData.symm⟩
    · rintro rfl
      exact h.followed [] back hData
    · exact h.apart other hOther (hIn.trans (List.suffix_cons byte data).isInfix)
    · exact h.followed (byte :: front) back (by rw [hData, List.cons_append])
  · rintro ⟨hHere, h⟩
    refine ⟨fun other hOther hIn => ?_, fun front back hData => ?_⟩
    · rcases List.infix_cons_iff.mp hIn with ⟨back, hData⟩ | hBehind
      · have hThree := (hHere other back hData.symm).1
        rw [UInt8.le_iff_toNat_le] at hOther hThree
        exact absurd (Nat.le_trans hThree hOther) (by decide)
      · exact h.apart other hOther hBehind
    · cases front with
      | nil => exact (hHere 3 back hData).2 rfl
      | cons first front => exact h.followed front back (List.cons_eq_cons.mp hData).2

/-- A byte other than zero does not matter to the form of what follows it. -/
theorem escaped_cons_of_ne_zero {byte : UInt8} (h : byte ≠ 0) (data : Bytes) :
    Escaped (byte :: data) ↔ Escaped data := by
  rw [escaped_cons]
  exact and_iff_right fun third back hData => absurd (List.cons_eq_cons.mp hData).1 h

/-- One step along a payload of the form, behind at most two zero bytes: the next byte has to be admitted
if there are two of them. -/
theorem escaped_step {zeros : Nat} (hZeros : zeros ≤ 2) (byte : UInt8) (data : Bytes) :
    Escaped (List.replicate zeros 0 ++ byte :: data) ↔
      (zeros = 2 → Admits byte data) ∧
        Escaped (List.replicate (countZeros zeros byte) 0 ++ data) := by
  by_cases hByte : byte = 0
  · subst hByte
    have hMore : List.replicate zeros 0 ++ 0 :: data
        = (List.replicate (countZeros zeros 0) 0 ++ data : Bytes) := by
      rw [countZeros, if_pos rfl, List.replicate_succ', List.append_assoc, List.singleton_append]
    rw [hMore, iff_and_self]
    rintro h rfl
    exact ((escaped_cons 0 _).mp h).1 0 data rfl
  · have hRest := escaped_cons_of_ne_zero hByte data
    rw [countZeros, if_neg hByte, List.replicate_zero, List.nil_append]
    obtain rfl | rfl | rfl : zeros = 0 ∨ zeros = 1 ∨ zeros = 2 := by omega
    · simp [hRest]
    · simp [escaped_cons, hRest, hByte]
    · simp [List.replicate_succ, escaped_cons, hRest, hByte]

/-- Up to two zeros alone are in escaped form. -/
theorem escaped_replicate {zeros : Nat} (h : zeros ≤ 2) : Escaped (List.replicate zeros 0) := by
  obtain rfl | rfl | rfl : zeros = 0 ∨ zeros = 1 ∨ zeros = 2 := by omega
  · exact escaped_nil
  · simp [escaped_cons, escaped_nil]
  · simp [List.replicate_succ, escaped_cons, escaped_nil]

end Form

section Inverse

/-- What is escaped has the form, together with the zero bytes in front of it. -/
theorem escaped_escapeAfter {zeros : Nat} (h : zeros ≤ 2) (data : Bytes) :
    Escaped (List.replicate zeros 0 ++ escapeAfter zeros data) := by
  fun_induction escapeAfter zeros data with
  | case1 zeros => simpa using escaped_replicate h
  | case2 zeros byte data hEscape ih =>
      refine (escaped_step h 3 _).mpr ⟨fun _ => ⟨by decide, fun _ => ⟨byte, rfl, hEscape.2⟩⟩, ?_⟩
      exact (escaped_step (Nat.zero_le 2) byte _).mpr
        ⟨fun hTwo => absurd hTwo (by decide), ih (countZeros_le (Nat.zero_le 2) (by simp))⟩
  | case3 zeros byte data hPlain ih =>
      have hLarge (hTwo : zeros = 2) : ¬ byte ≤ 3 := fun hByte => hPlain ⟨Nat.le_of_eq hTwo.symm, hByte⟩
      refine (escaped_step h byte _).mpr ⟨fun hTwo => ⟨?_, fun hThree => ?_⟩, ih (countZeros_le h ?_)⟩
      · exact UInt8.le_of_lt (UInt8.not_le.mp (hLarge hTwo))
      · exact absurd (hThree ▸ UInt8.le_refl byte) (hLarge hTwo)
      · rintro hTwo rfl
        exact hLarge hTwo (by decide)

/-- Escape bytes are put back where they were taken out. -/
theorem escapeAfter_unescapeAfter {zeros : Nat} (h : zeros ≤ 2) {data : Bytes}
    (hData : Escaped (List.replicate zeros 0 ++ data)) :
    escapeAfter zeros (unescapeAfter zeros data) = data := by
  fun_induction unescapeAfter zeros data with
  | case1 => rfl
  | case2 zeros byte data hEscape ih =>
      obtain ⟨hTwo, rfl⟩ := hEscape
      obtain ⟨hAdmits, hRest⟩ := (escaped_step h 3 data).mp hData
      obtain ⟨next, hNext, hSmall⟩ := (hAdmits (Nat.le_antisymm h hTwo)).2 rfl
      obtain ⟨rest, rfl⟩ : ∃ rest, data = next :: rest := by
        cases data <;> simp_all
      have hBack := ih (Nat.zero_le 2) hRest
      have hNone : ¬ (0 ≥ 2 ∧ next = 3) := by simp
      have hSecond : ¬ (0 ≥ 2 ∧ next ≤ 3) := by simp
      rw [unescapeAfter, if_neg hNone, escapeAfter, if_neg hSecond] at hBack
      rw [unescapeAfter, if_neg hNone, escapeAfter, if_pos ⟨hTwo, hSmall⟩, hBack]
  | case3 zeros byte data hPlain ih =>
      obtain ⟨hAdmits, hRest⟩ := (escaped_step h byte data).mp hData
      have hLarge : ¬ (zeros ≥ 2 ∧ byte ≤ 3) := by
        rintro ⟨hTwo, hSmall⟩
        exact hPlain ⟨hTwo, UInt8.le_antisymm hSmall (hAdmits (Nat.le_antisymm h hTwo)).1⟩
      rw [escapeAfter, if_neg hLarge, ih (countZeros_le h ?_) hRest]
      rintro hTwo rfl
      exact absurd (hAdmits hTwo).1 (by decide)

/-- Unescaping only leaves bytes out. -/
theorem unescapeAfter_sublist (zeros : Nat) (data : Bytes) : (unescapeAfter zeros data).Sublist data := by
  fun_induction unescapeAfter zeros data with
  | case1 => exact List.Sublist.refl []
  | case2 zeros byte data _ ih => exact ih.cons byte
  | case3 zeros byte data _ ih => exact ih.cons_cons byte

/-- Exactly the data without bytes 00 00 03 stays as it is. -/
theorem unescape_eq_self_iff (data : Bytes) : unescape data = data ↔ hasEscape data = false := by
  constructor
  · intro h
    by_contra hSome
    obtain ⟨front, back, rfl, hFirst⟩ := exists_first_escape (Bool.not_eq_false _ |>.mp hSome)
    rw [unescape_first_escape hFirst, List.append_cancel_left_eq, List.cons_inj_right,
      List.cons_inj_right] at h
    have hLess := (unescapeAfter_sublist 0 back).length_le
    rw [h, List.length_cons] at hLess
    exact Nat.not_succ_le_self _ hLess
  · intro h
    have hAll := unescape_append h []
    rwa [List.append_nil, unescapeAfter, List.append_nil] at hAll

/-- Payloads and payloads with escape bytes correspond to each other. What escaping gives has the form, and
the payload is got back from it; exactly what has the form is got back from what it carries; and exactly
data with bytes 00 00 03 is changed when escape bytes are taken out. -/
theorem escape_inverse (payload data : Bytes) :
    Escaped (escape payload) ∧ unescape (escape payload) = payload ∧
      (Escaped data ↔ escape (unescape data) = data) ∧
      (hasEscape data = true ↔ unescape data ≠ data) := by
  have hEscaped (payload : Bytes) : Escaped (escape payload) :=
    escaped_escapeAfter (Nat.zero_le 2) payload
  refine ⟨hEscaped payload, unescape_escape payload, ⟨fun h => ?_, fun h => ?_⟩, ?_⟩
  · exact escapeAfter_unescapeAfter (Nat.zero_le 2) h
  · exact h ▸ hEscaped (unescape data)
  · rw [ne_eq, unescape_eq_self_iff, Bool.not_eq_false]

end Inverse

end Cadence.Nal
