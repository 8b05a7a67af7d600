import Cadence.Proofs.Bits.CodeWords

/-!
Data that ends too early. A run of bits begins with a code word, ends within one, or has more zeros in
front than a code word may have (`ue_cases`). A reader that would read a word runs out of data wherever
the data ends within that word (`Stops`).
-/

namespace Cadence

namespace Bits

/-- Zeros and a one bit with as many further bits as zeros are a code word. -/
theorem exists_ue_eq {zeros : Nat} {low : List Bool} (hZeros : zeros ≤ 31)
    (hLow : low.length = zeros) :
    ∃ value, value + 1 < 2 ^ 32 ∧ ue value = List.replicate zeros false ++ true :: low := by
  have hValue : toNat (true :: low) = 2 ^ zeros + toNat low := by
    rw [toNat_cons, hLow, Bool.toNat_true, Nat.one_mul]
  have hLess := toNat_lt low
  have hPower : 2 ^ (zeros + 1) ≤ 2 ^ 32 := Nat.pow_le_pow_right Nat.two_pos (by omega)
  rw [hLow] at hLess
  rw [Nat.pow_succ] at hPower
  have hSucc : toNat (true :: low) - 1 + 1 = toNat (true :: low) := by omega
  have hLog : (toNat (true :: low)).log2 = zeros := by
    rw [Nat.log2_eq_iff (by omega), Nat.pow_succ]
    omega
  have hDigits : ofNat (zeros + 1) (toNat (true :: low)) = true :: low := by
    rw [← hLow]
    exact ofNat_toNat (true :: low)
  refine ⟨toNat (true :: low) - 1, by omega, ?_⟩
  rw [ue, hSucc, hLog, hDigits]

/-- How a run of bits begins. -/
theorem ue_cases (bits : List Bool) :
    (∃ value back, value + 1 < 2 ^ 32 ∧ bits = ue value ++ back) ∨
    (∃ value missing, value + 1 < 2 ^ 32 ∧ missing ≠ [] ∧ bits ++ missing = ue value) ∨
    ∃ back, bits = List.replicate 32 false ++ back := by
  obtain ⟨zeros, rest, hBits, hRest⟩ : ∃ zeros rest, bits = List.replicate zeros false ++ rest ∧
      rest.head? ≠ some false := by
    induction bits with
    | nil => exact ⟨0, [], rfl, by simp⟩
    | cons bit bits ih =>
        cases bit with
        | true => exact ⟨0, true :: bits, rfl, by simp⟩
        | false =>
            obtain ⟨zeros, rest, rfl, hRest⟩ := ih
            exact ⟨zeros + 1, rest, rfl, hRest⟩
  subst hBits
  by_cases hLong : 32 ≤ zeros
  · refine .inr (.inr ⟨List.replicate (zeros - 32) false ++ rest, ?_⟩)
    rw [← List.append_assoc, List.replicate_append_replicate, Nat.add_sub_cancel' hLong]
  · have hZeros : zeros ≤ 31 := by omega
    match rest with
    | false :: _ => exact absurd rfl hRest
    | [] =>
        obtain ⟨value, hValue, hWord⟩ := exists_ue_eq hZeros (@List.length_replicate _ zeros false)
        refine .inr (.inl ⟨value, true :: List.replicate zeros false, hValue, List.cons_ne_nil _ _, ?_⟩)
        rw [List.append_nil, hWord]
    | true :: low =>
        rcases Nat.lt_or_ge low.length zeros with hShort | hEnough
        · have hLow : (low ++ List.replicate (zeros - low.length) false).length = zeros := by
            rw [List.length_append, List.length_replicate]
            omega
          obtain ⟨value, hValue, hWord⟩ := exists_ue_eq hZeros hLow
          refine .inr (.inl ⟨value, List.replicate (zeros - low.length) false, hValue, ?_, ?_⟩)
          · rw [← List.length_pos_iff, List.length_replicate]
            omega
          · rw [hWord, List.append_assoc, List.cons_append]
        · obtain ⟨value, hValue, hWord⟩ := exists_ue_eq hZeros (List.length_take_of_le hEnough)
          refine .inl ⟨value, low.drop zeros, hValue, ?_⟩
          rw [hWord, List.append_assoc, List.cons_append, List.take_append_drop]

end Bits

namespace BitReader

variable {α β : Type}

/-- Where the data ends within the word, the reader runs out of data. -/
def Stops (read : Read α) (word : List Bool) : Prop :=
  ∀ r missing, missing ≠ [] → r.rest ++ missing = word → ∃ s, read r = .error .endOfData s

namespace Stops

theorem pure (a : α) : Stops (pure a : Read α) [] := by
  intro r missing hMissing h
  exact absurd (List.append_eq_nil_iff.mp h).2 hMissing

/-- The data ends within the first word, or behind it and within the second one. -/
theorem bind {read : Read α} {next : α → Read β} {word tail : List Bool} {a : α}
    (first : Stops read word) (reads : Reads read word a) (second : Stops (next a) tail) :
    Stops (read >>= next) (word ++ tail) := by
  intro r missing hMissing h
  have hBehind (back : List Bool) (hRest : r.rest = word ++ back) (hTail : back ++ missing = tail) :
      ∃ s, (read >>= next) r = .error .endOfData s := by
    obtain ⟨s, hNext⟩ := second { r with position := r.position + word.length } missing hMissing
      (by rw [rest_advance hRest, hTail])
    exact ⟨s, bind_eq_error.mpr (.inr ⟨a, _, reads r back hRest, hNext⟩)⟩
  rcases List.append_eq_append_iff.mp h with ⟨more, hWord, hRest⟩ | ⟨back, hRest, hTail⟩
  · by_cases hMore : more = []
    · subst hMore
      exact hBehind [] (by rw [hWord, List.append_nil, List.append_nil]) hRest
    · obtain ⟨s, hFirst⟩ := first r more hMore hWord.symm
      exact ⟨s, bind_eq_error.mpr (.inl hFirst)⟩
  · exact hBehind back hRest hTail.symm

theorem map {read : Read α} {word : List Bool} {a : α} (first : Stops read word)
    (reads : Reads read word a) (f : α → β) : Stops (do return f (← read)) word := by
  rw [← List.append_nil word]
  exact first.bind reads (pure (f a))

theorem readBit (bit : Bool) : Stops readBit [bit] := by
  intro r missing hMissing h
  have hRest : r.rest = [] := by
    have hLength := congrArg List.length h
    have hSome := List.length_pos_iff.mpr hMissing
    rw [List.length_append, List.length_singleton] at hLength
    exact List.length_eq_zero_iff.mp (by omega)
  have hNone : r.data[r.position / 8]? = none := by
    have hEnd := List.drop_eq_nil_iff.mp hRest
    rw [Bits.length_ofBytes, Array.length_toList] at hEnd
    exact Array.getElem?_eq_none (by omega)
  refine ⟨r, ?_⟩
  rw [BitReader.readBit, hNone]

/-- A fixed number of bits stops at the end of the data if any of them is missing. -/
theorem readBits {word : List Bool} (h : word.length ≤ 32) : Stops (readBits word.length) word := by
  intro r missing hMissing hWord
  have hLeft : word.length > r.left := by
    have hSome := List.length_pos_iff.mpr hMissing
    rw [← length_rest, ← hWord, List.length_append]
    omega
  refine ⟨r, ?_⟩
  rw [BitReader.readBits, if_neg (Nat.not_lt.mpr h), if_pos hLeft]

theorem readZeros {zeros allowed : Nat} (h : zeros ≤ allowed) :
    Stops (readZeros allowed) (List.replicate zeros false ++ [true]) := by
  induction allowed generalizing zeros with
  | zero =>
      obtain rfl := Nat.le_zero.mp h
      exact (readBit true).bind (.readBit true) (pure 0)
  | succ allowed ih =>
      cases zeros with
      | zero => exact (readBit true).bind (.readBit true) (pure 0)
      | succ zeros =>
          have hLess := Nat.le_of_succ_le_succ h
          exact (readBit false).bind (.readBit false) ((ih hLess).map (.readZeros hLess) (· + 1))

/-- A code that is cut off anywhere stops at the end of the data. -/
theorem readUe {value : Nat} (h : value + 1 < 2 ^ 32) : Stops readUe (Bits.ue value) := by
  have hExtra : (value + 1).log2 ≤ 31 := Bits.log2_succ_le h
  have hLength : (Bits.ofNat (value + 1).log2 (value + 1)).length = (value + 1).log2 :=
    Bits.length_ofNat _ _
  have hShort : (Bits.ofNat (value + 1).log2 (value + 1)).length ≤ 32 := by omega
  have hLow := (readBits hShort).map (.readBits hShort) ((1 <<< (value + 1).log2) - 1 + ·)
  rw [hLength] at hLow
  have hWord : Stops BitReader.readUe _ := (readZeros hExtra).bind (.readZeros hExtra) hLow
  rwa [List.append_assoc, List.singleton_append, ← Bits.ue_eq] at hWord

end Stops

/-- A code word has at most 31 zeros in front. -/
theorem readUe_of_zeros {r : BitReader} {back : List Bool}
    (h : r.rest = List.replicate 32 false ++ back) : ∃ s, readUe r = .error .golombTooLong s := by
  have hZeros : ∀ (allowed : Nat) (r : BitReader),
      r.rest = List.replicate (allowed + 1) false ++ back →
      ∃ s, readZeros allowed r = .error .golombTooLong s := by
    intro allowed
    induction allowed with
    | zero =>
        intro r h
        exact ⟨_, bind_eq_error.mpr (.inr ⟨false, _, Reads.readBit false r back h, rfl⟩)⟩
    | succ allowed ih =>
        intro r h
        rw [List.replicate_succ] at h
        obtain ⟨s, hRest⟩ := ih _ (@rest_advance r [false] _ h)
        exact ⟨s, bind_eq_error.mpr (.inr ⟨false, _, Reads.readBit false r _ h,
          bind_eq_error.mpr (.inl hRest)⟩)⟩
  obtain ⟨s, hRead⟩ := hZeros 31 r h
  exact ⟨s, bind_eq_error.mpr (.inl hRead)⟩

/-- What is read as a code word is one. -/
theorem readUe_eq_ok {value : Nat} {r s : BitReader} (h : readUe r = .ok value s) :
    value + 1 < 2 ^ 32 ∧ r.rest = Bits.ue value ++ s.rest ∧
      s.position = r.position + (Bits.ue value).length := by
  rcases Bits.ue_cases r.rest with ⟨other, back, hOther, hRest⟩ |
    ⟨other, missing, hOther, hMissing, hRest⟩ | ⟨back, hRest⟩
  · cases h.symm.trans (Reads.readUe hOther r back hRest)
    exact ⟨hOther, by rw [rest_advance hRest, hRest], rfl⟩
  · obtain ⟨t, hStop⟩ := Stops.readUe hOther r missing hMissing hRest
    cases h.symm.trans hStop
  · obtain ⟨t, hLong⟩ := readUe_of_zeros hRest
    cases h.symm.trans hLong

/-- A reader that starts with a code word runs out of data within it, or behind it. -/
theorem readUe_bind_endOfData {next : Nat → Read α} {r t : BitReader}
    (h : (readUe >>= next) r = .error .endOfData t) :
    (∃ value missing, value + 1 < 2 ^ 32 ∧ missing ≠ [] ∧ r.rest ++ missing = Bits.ue value) ∨
    ∃ value s, value + 1 < 2 ^ 32 ∧ r.rest = Bits.ue value ++ s.rest ∧
      next value s = .error .endOfData t := by
  rcases Bits.ue_cases r.rest with ⟨value, back, hValue, hRest⟩ | hCut | ⟨back, hRest⟩
  · have hRead := Reads.readUe hValue r back hRest
    refine .inr ⟨value, { r with position := r.position + (Bits.ue value).length }, hValue, ?_, ?_⟩
    · rw [rest_advance hRest, hRest]
    · rcases bind_eq_error.mp h with hFault | ⟨other, s, hOther, hNext⟩
      · cases hRead.symm.trans hFault
      · cases hRead.symm.trans hOther
        exact hNext
  · exact .inl hCut
  · obtain ⟨s, hRead⟩ := readUe_of_zeros hRest
    rcases bind_eq_error.mp h with hFault | ⟨_, _, hOther, _⟩
    · cases hRead.symm.trans hFault
    · cases hRead.symm.trans hOther

end BitReader

end Cadence
