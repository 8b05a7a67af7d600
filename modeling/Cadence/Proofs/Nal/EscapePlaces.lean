import Mathlib.Data.List.Induction
import Cadence.Proofs.Nal.Escaping

/-!
Where escape bytes stand, and what becomes of them when the beginning of an escaped payload is changed.
Behind the change a byte 3 can become an escape byte, or cease to be one: only the zero bytes at the end
of the beginning count (`unescape_append`). So the payload is changed like its beginning exactly if the
bytes 00 00 03 stand at the same places as before (`unescape_append_iff`).
-/

namespace Cadence.Nal

/-- Two zero bytes and a byte 3 stand at a place. -/
def EscapeAt (data : Bytes) (place : Nat) : Prop :=
  data[place]? = some 0 ∧ data[place + 1]? = some 0 ∧ data[place + 2]? = some 3

/-- The bytes 00 00 03 stand at the same places. -/
def SameEscapes (left right : Bytes) : Prop :=
  ∀ place, EscapeAt left place ↔ EscapeAt right place

/-- The number of zero bytes at the end, if as many as given precede the data. -/
def endZeros (zeros : Nat) (data : Bytes) : Nat :=
  data.foldl countZeros zeros

@[simp] theorem endZeros_nil (zeros : Nat) : endZeros zeros [] = zeros := rfl

@[simp] theorem endZeros_cons (zeros : Nat) (byte : UInt8) (data : Bytes) :
    endZeros zeros (byte :: data) = endZeros (countZeros zeros byte) data := rfl

@[simp] theorem endZeros_append (zeros : Nat) (front back : Bytes) :
    endZeros zeros (front ++ back) = endZeros (endZeros zeros front) back :=
  List.foldl_append

/-- Two zero bytes at the end do not become three where none of them is followed by a further one. -/
theorem countZeros_le {zeros : Nat} {byte : UInt8} (h : zeros ≤ 2) (hPlain : zeros = 2 → byte ≠ 0) :
    countZeros zeros byte ≤ 2 := by
  rw [countZeros]
  split <;> grind

section Places

theorem escapeAt_zero {data : Bytes} : EscapeAt data 0 ↔ ∃ rest, data = 0 :: 0 :: 3 :: rest := by
  constructor
  · rintro ⟨hFirst, hSecond, hThird⟩
    rcases data with _ | ⟨_, _ | ⟨_, _ | ⟨_, rest⟩⟩⟩
    · cases hFirst
    · cases hSecond
    · cases hThird
    · cases hFirst
      cases hSecond
      cases hThird
      exact ⟨rest, rfl⟩
  · rintro ⟨rest, rfl⟩
    exact ⟨rfl, rfl, rfl⟩

theorem hasEscape_cons (byte : UInt8) (data : Bytes) :
    hasEscape (byte :: data) = true ↔ EscapeAt (byte :: data) 0 ∨ hasEscape data = true := by
  rw [escapeAt_zero]
  constructor
  · intro h
    unfold hasEscape at h
    split at h
    case h_1 rest hData => exact .inl ⟨rest, hData⟩
    case h_2 hData =>
      cases hData
      exact .inr h
    case h_3 => cases h
  · rintro (⟨rest, hData⟩ | h)
    · rw [hData, hasEscape]
    · unfold hasEscape
      split
      case h_1 => rfl
      case h_2 hData =>
        cases hData
        exact h
      case h_3 hData => cases hData

/-- A search for escape bytes finds one exactly if it stands at some place. -/
theorem hasEscape_iff (data : Bytes) : hasEscape data = true ↔ ∃ place, EscapeAt data place := by
  induction data with
  | nil =>
      refine iff_of_false Bool.false_ne_true ?_
      rintro ⟨place, hZero, _⟩
      cases hZero
  | cons byte data ih =>
      rw [hasEscape_cons, ih]
      constructor
      · rintro (h | ⟨place, h⟩)
        · exact ⟨0, h⟩
        · exact ⟨place + 1, h⟩
      · rintro ⟨place, h⟩
        cases place with
        | zero => exact .inl h
        | succ place => exact .inr ⟨place, h⟩

/-- Data with bytes 00 00 03 has them somewhere first. -/
theorem exists_first_escape {data : Bytes} (h : hasEscape data = true) :
    ∃ front back, data = front ++ 0 :: 0 :: 3 :: back ∧ hasEscape (front ++ [0, 0]) = false := by
  induction data with
  | nil => cases h
  | cons byte data ih =>
      by_cases hHere : EscapeAt (byte :: data) 0
      · obtain ⟨rest, hData⟩ := escapeAt_zero.mp hHere
        exact ⟨[], rest, hData, rfl⟩
      · obtain ⟨front, back, rfl, hFirst⟩ := ih (((hasEscape_cons byte data).mp h).resolve_left hHere)
        refine ⟨byte :: front, back, rfl, ?_⟩
        rw [← Bool.not_eq_true, List.cons_append, hasEscape_cons, not_or]
        refine ⟨fun hEscape => hHere ?_, by simp [hFirst]⟩
        obtain ⟨rest, hData⟩ := escapeAt_zero.mp hEscape
        rcases front with _ | ⟨_, _ | ⟨_, front⟩⟩
        · simp at hData
        · simp at hData
        · cases hData
          exact ⟨rfl, rfl, rfl⟩

/-- An escape byte in the data behind is one in the whole. -/
theorem hasEscape_append {back : Bytes} (front : Bytes) (h : hasEscape back = true) :
    hasEscape (front ++ back) = true := by
  induction front with
  | nil => exact h
  | cons byte front ih => exact (hasEscape_cons byte _).mpr (.inr ih)

end Places

section Unescape

/-- Where there are no bytes 00 00 03, nothing is taken out. -/
theorem unescapeAfter_append {zeros : Nat} {front : Bytes}
    (h : hasEscape (List.replicate zeros 0 ++ front) = false) (back : Bytes) :
    unescapeAfter zeros (front ++ back) = front ++ unescapeAfter (endZeros zeros front) back := by
  induction front generalizing zeros with
  | nil => rfl
  | cons byte front ih =>
      have hPlain : ¬ (zeros ≥ 2 ∧ byte = 3) := by
        rintro ⟨hZeros, rfl⟩
        obtain ⟨more, rfl⟩ := Nat.exists_eq_add_of_le' hZeros
        rw [← List.replicate_append_replicate, List.append_assoc,
          hasEscape_append _ ((hasEscape_iff _).mpr ⟨0, rfl, rfl, rfl⟩)] at h
        cases h
      have hRest : hasEscape (List.replicate (countZeros zeros byte) 0 ++ front) = false := by
        by_cases hByte : byte = 0
        · subst hByte
          rwa [countZeros, if_pos rfl, List.replicate_succ', List.append_assoc]
        · rw [countZeros, if_neg hByte, ← Bool.not_eq_true]
          intro hEscape
          rw [hasEscape_append _ ((hasEscape_cons byte front).mpr (.inr hEscape))] at h
          cases h
      rw [List.cons_append, unescapeAfter, if_neg hPlain, ih hRest, endZeros_cons, List.cons_append]

/-- Data without an escape byte stays as it is, and what follows it is read with the zeros at its
end. -/
theorem unescape_append {front : Bytes} (h : hasEscape front = false) (back : Bytes) :
    unescape (front ++ back) = front ++ unescapeAfter (endZeros 0 front) back :=
  @unescapeAfter_append 0 front h back

/-- Of the first bytes 00 00 03 the byte 3 is taken out. -/
theorem unescape_first_escape {front : Bytes} (h : hasEscape (front ++ [0, 0]) = false) (back : Bytes) :
    unescape (front ++ 0 :: 0 :: 3 :: back) = front ++ 0 :: 0 :: unescapeAfter 0 back := by
  have hSplit : front ++ 0 :: 0 :: 3 :: back = (front ++ [0, 0]) ++ 3 :: back := by simp
  have hEnd : 2 ≤ endZeros 0 (front ++ [0, 0]) := by
    rw [endZeros_append]
    exact Nat.le_add_left 2 _
  rw [hSplit, unescape_append h, unescapeAfter, if_pos ⟨hEnd, rfl⟩, List.append_assoc]
  rfl

/-- More than two zero bytes count as two. -/
theorem unescapeAfter_of_two_le {zeros other : Nat} (h : 2 ≤ zeros) (hOther : 2 ≤ other) (data : Bytes) :
    unescapeAfter zeros data = unescapeAfter other data := by
  induction data generalizing zeros other with
  | nil => rfl
  | cons byte data ih =>
      rw [unescapeAfter, unescapeAfter]
      by_cases hByte : byte = 3
      · rw [if_pos ⟨h, hByte⟩, if_pos ⟨hOther, hByte⟩]
      · rw [if_neg fun hBoth => hByte hBoth.2, if_neg fun hBoth => hByte hBoth.2]
        by_cases hZero : byte = 0
        · rw [countZeros, countZeros, if_pos hZero, if_pos hZero,
            @ih (zeros + 1) (other + 1) (by omega) (by omega)]
        · rw [countZeros, countZeros, if_neg hZero, if_neg hZero]

/-- The first byte 3 of the data is an escape byte because of the zero bytes in front of the data. -/
def Hides (zeros : Nat) (data : Bytes) : Prop :=
  2 ≤ zeros ∧ data[0]? = some 3 ∨ 1 ≤ zeros ∧ data[0]? = some 0 ∧ data[1]? = some 3

/-- A byte 3 is taken out, or it is not. -/
theorem unescapeAfter_three_eq_iff (zeros other : Nat) (data : Bytes) :
    unescapeAfter zeros (3 :: data) = unescapeAfter other (3 :: data) ↔ (2 ≤ zeros ↔ 2 ≤ other) := by
  have hLength (zeros : Nat) : (unescapeAfter zeros (3 :: data)).length
      = (unescapeAfter 0 data).length + if 2 ≤ zeros then 0 else 1 := by
    rw [unescapeAfter]
    by_cases h : 2 ≤ zeros
    · rw [if_pos ⟨h, rfl⟩, if_pos h, Nat.add_zero]
    · rw [if_neg fun hBoth => h hBoth.1, if_neg h]
      rfl
  constructor
  · intro h
    have hSame := congrArg List.length h
    rw [hLength, hLength, Nat.add_left_cancel_iff] at hSame
    split at hSame <;> split at hSame <;> omega
  · intro h
    rw [unescapeAfter, unescapeAfter]
    simp only [ge_iff_le, h]
    rfl

/-- Zero bytes in front of the data change what is taken out of it only by way of its first byte 3. -/
theorem unescapeAfter_eq_iff (zeros other : Nat) (data : Bytes) :
    unescapeAfter zeros data = unescapeAfter other data ↔ (Hides zeros data ↔ Hides other data) := by
  cases data with
  | nil => simp [Hides, unescapeAfter]
  | cons byte data =>
      by_cases hThree : byte = 3
      · subst hThree
        rw [unescapeAfter_three_eq_iff]
        simp [Hides]
      have hCons (zeros : Nat) : unescapeAfter zeros (byte :: data)
          = byte :: unescapeAfter (countZeros zeros byte) data := by
        rw [unescapeAfter, if_neg fun hBoth => hThree hBoth.2]
      rw [hCons, hCons, List.cons_inj_right]
      by_cases hZero : byte = 0
      · subst hZero
        rw [countZeros, countZeros, if_pos rfl, if_pos rfl]
        cases data with
        | nil => simp [Hides, unescapeAfter]
        | cons next data =>
            by_cases hNext : next = 3
            · subst hNext
              rw [unescapeAfter_three_eq_iff]
              simp [Hides]
            · have hSame : unescapeAfter (zeros + 1) (next :: data)
                  = unescapeAfter (other + 1) (next :: data) := by
                rw [unescapeAfter, unescapeAfter, if_neg fun hBoth => hNext hBoth.2,
                  if_neg fun hBoth => hNext hBoth.2]
                by_cases hNextZero : next = 0
                · rw [countZeros, countZeros, if_pos hNextZero, if_pos hNextZero,
                    @unescapeAfter_of_two_le (zeros + 2) (other + 2) (by omega) (by omega)]
                · rw [countZeros, countZeros, if_neg hNextZero, if_neg hNextZero]
              simp [Hides, hSame, hNext]
      · rw [countZeros, countZeros, if_neg hZero, if_neg hZero]
        simp [Hides, hThree, hZero]

end Unescape

section Changed

variable {front other back : Bytes}

theorem endZeros_concat (zeros : Nat) (data : Bytes) (byte : UInt8) :
    endZeros zeros (data ++ [byte]) = countZeros (endZeros zeros data) byte := by
  rw [endZeros_append]
  rfl

/-- Some zero is counted at the end exactly if the last byte is one. -/
theorem one_le_endZeros_iff (data : Bytes) : 1 ≤ endZeros 0 data ↔
    ∃ place, data.length = place + 1 ∧ data[place]? = some 0 := by
  induction data using List.reverseRecOn with
  | nil => simp
  | append_singleton front byte _ =>
      have hPlace (place : Nat) : (front ++ [byte]).length = place + 1 ↔ place = front.length := by
        rw [List.length_append, List.length_singleton]
        omega
      simp only [hPlace, exists_eq_left, List.getElem?_concat_length, Option.some.injEq,
        endZeros_concat, countZeros]
      split <;> simp_all

/-- Two zeros are counted at the end exactly if the last two bytes are zero. -/
theorem two_le_endZeros_iff (data : Bytes) : 2 ≤ endZeros 0 data ↔
    ∃ place, data.length = place + 2 ∧ data[place]? = some 0 ∧ data[place + 1]? = some 0 := by
  induction data using List.reverseRecOn with
  | nil => simp
  | append_singleton front byte _ =>
      rw [endZeros_concat, countZeros]
      by_cases hByte : byte = 0
      · rw [if_pos hByte, hByte, Nat.succ_le_succ_iff, one_le_endZeros_iff]
        refine exists_congr fun place => ?_
        rw [List.length_append, List.length_singleton, Nat.succ_inj]
        refine and_congr_right fun hLength => ?_
        rw [← hLength, List.getElem?_concat_length, List.getElem?_append_left (by omega)]
        simp
      · rw [if_neg hByte]
        refine iff_of_false (by decide) ?_
        rintro ⟨place, hLength, _, hLast⟩
        rw [List.length_append, List.length_singleton, Nat.succ_inj] at hLength
        rw [← hLength, List.getElem?_concat_length, Option.some.injEq] at hLast
        exact hByte hLast

theorem getElem?_length_add (front back : Bytes) (place : Nat) :
    (front ++ back)[front.length + place]? = back[place]? := by
  rw [List.getElem?_append_right (Nat.le_add_right _ _), Nat.add_sub_cancel_left]

theorem exists_append_of_two_le {data : Bytes} (h : 2 ≤ endZeros 0 data) :
    ∃ front, data = front ++ [0, 0] := by
  obtain ⟨place, hLength, hFirst, hSecond⟩ := (two_le_endZeros_iff data).mp h
  have hLast : data.drop place = [0, 0] := by
    obtain ⟨hPlace, hZero⟩ := List.getElem?_eq_some_iff.mp hFirst
    obtain ⟨hNext, hNextZero⟩ := List.getElem?_eq_some_iff.mp hSecond
    rw [List.drop_eq_getElem_cons hPlace, List.drop_eq_getElem_cons hNext, hZero, hNextZero,
      List.drop_eq_nil_of_le (by omega)]
  exact ⟨data.take place, by rw [← hLast, List.take_append_drop]⟩

theorem escapeAt_append_right (front back : Bytes) (place : Nat) :
    EscapeAt (front ++ back) (front.length + place) ↔ EscapeAt back place := by
  simp only [EscapeAt, Nat.add_assoc, getElem?_length_add]

theorem escapeAt_append_left (back : Bytes) {place : Nat} (h : place + 2 < front.length) :
    EscapeAt (front ++ back) place ↔ EscapeAt front place := by
  rw [EscapeAt, EscapeAt, List.getElem?_append_left (by omega), List.getElem?_append_left (by omega),
    List.getElem?_append_left h]

/-- A beginning of data without bytes 00 00 03 has none either. -/
theorem hasEscape_take_of_le {data : Bytes} {count other : Nat} (h : count ≤ other)
    (hOther : hasEscape (data.take other) = false) : hasEscape (data.take count) = false := by
  have hSplit : data.take other = data.take count ++ (data.drop count).take (other - count) := by
    rw [← List.take_add, Nat.add_sub_cancel' h]
  rw [← Bool.not_eq_true, hasEscape_iff] at hOther ⊢
  rintro ⟨place, hEscape⟩
  have hPlace : place + 2 < (data.take count).length := (List.getElem?_eq_some_iff.mp hEscape.2.2).1
  exact hOther ⟨place, by rwa [hSplit, escapeAt_append_left _ hPlace]⟩

/-- Bytes 00 00 03 that begin in the front and are not all in it. -/
theorem escapeAt_append_iff (hFront : hasEscape front = false) (back : Bytes) {place : Nat}
    (hPlace : place < front.length) : EscapeAt (front ++ back) place ↔
      (place + 2 = front.length ∧ 2 ≤ endZeros 0 front ∧ back[0]? = some 3) ∨
      place + 1 = front.length ∧ 1 ≤ endZeros 0 front ∧ back[0]? = some 0 ∧ back[1]? = some 3 := by
  have hBack := getElem?_length_add front back
  rcases Nat.lt_trichotomy (place + 2) front.length with hWithin | hTwo | hBehind
  · rw [escapeAt_append_left back hWithin]
    refine iff_of_false (fun hEscape => ?_) (by omega)
    rw [(hasEscape_iff front).mpr ⟨place, hEscape⟩] at hFront
    cases hFront
  · rw [EscapeAt, List.getElem?_append_left hPlace, List.getElem?_append_left (by omega), hTwo]
    have hThird := hBack 0
    have hZeros : 2 ≤ endZeros 0 front ↔ front[place]? = some 0 ∧ front[place + 1]? = some 0 := by
      rw [two_le_endZeros_iff]
      exact ⟨fun ⟨other, hOther, hBytes⟩ => by
        obtain rfl : other = place := by omega
        exact hBytes, fun hBytes => ⟨place, hTwo.symm, hBytes⟩⟩
    rw [Nat.add_zero] at hThird
    rw [hThird, hZeros, and_assoc]
    exact ⟨fun h => .inl ⟨rfl, h⟩, fun h => h.elim (·.2) fun h => by omega⟩
  · have hOne : front.length = place + 1 := by omega
    have hSecond := hBack 0
    have hThird := hBack 1
    have hZeros : 1 ≤ endZeros 0 front ↔ front[place]? = some 0 := by
      rw [one_le_endZeros_iff]
      exact ⟨fun ⟨other, hOther, hByte⟩ => by
        obtain rfl : other = place := by omega
        exact hByte, fun hByte => ⟨place, hOne, hByte⟩⟩
    rw [Nat.add_zero, hOne] at hSecond
    rw [hOne] at hThird
    rw [EscapeAt, List.getElem?_append_left hPlace, hSecond, hThird, hZeros]
    exact ⟨fun h => .inr ⟨hOne.symm, h⟩, fun h => h.elim (fun h => by omega) (·.2)⟩

/-- Behind data without an escape byte one begins in it exactly if the zeros at its end are taken
for one. -/
theorem exists_escapeAt_iff (hFront : hasEscape front = false) (back : Bytes) :
    (∃ place, place < front.length ∧ EscapeAt (front ++ back) place) ↔
      Hides (endZeros 0 front) back := by
  constructor
  · rintro ⟨place, hPlace, hEscape⟩
    exact ((escapeAt_append_iff hFront back hPlace).mp hEscape).imp (·.2) (·.2)
  · rintro (⟨hZeros, hByte⟩ | ⟨hZeros, hByte⟩)
    · obtain ⟨place, hLength, _⟩ := (two_le_endZeros_iff front).mp hZeros
      have hPlace : place < front.length := by omega
      exact ⟨place, hPlace, (escapeAt_append_iff hFront back hPlace).mpr
        (.inl ⟨hLength.symm, hZeros, hByte⟩)⟩
    · obtain ⟨place, hLength, _⟩ := (one_le_endZeros_iff front).mp hZeros
      have hPlace : place < front.length := by omega
      exact ⟨place, hPlace, (escapeAt_append_iff hFront back hPlace).mpr
        (.inr ⟨hLength.symm, hZeros, hByte⟩)⟩

/-- Let the front of the data be exchanged for one of the same length. If the zeros at the end of
the new one are taken for an escape byte wherever those of the old one are, no escape byte is
lost. -/
theorem escapeAt_of_hides (hLength : front.length = other.length) (hFront : hasEscape front = false)
    (hOther : hasEscape other = false)
    (h : Hides (endZeros 0 front) back → Hides (endZeros 0 other) back) {place : Nat}
    (hPlace : place < front.length) (hEscape : EscapeAt (front ++ back) place) :
    EscapeAt (other ++ back) place := by
  refine (escapeAt_append_iff hOther back (hLength ▸ hPlace)).mpr ?_
  rw [← hLength]
  rcases (escapeAt_append_iff hFront back hPlace).mp hEscape with
    ⟨hTwo, hZeros, hByte⟩ | ⟨hOne, hZeros, hZero, hByte⟩
  · rcases h (.inl ⟨hZeros, hByte⟩) with ⟨hEnd, _⟩ | ⟨_, hZero, _⟩
    · exact .inl ⟨hTwo, hEnd, hByte⟩
    · cases hByte.symm.trans hZero
  · rcases h (.inr ⟨hZeros, hZero, hByte⟩) with ⟨_, hThree⟩ | ⟨hEnd, _⟩
    · cases hZero.symm.trans hThree
    · exact .inr ⟨hOne, hEnd, hZero, hByte⟩

/-- Only the zero bytes at the end of the front decide whether bytes 00 00 03 begin in it. -/
theorem sameEscapes_append_iff (hLength : front.length = other.length) (hFront : hasEscape front = false)
    (hOther : hasEscape other = false) (back : Bytes) :
    SameEscapes (front ++ back) (other ++ back) ↔
      (Hides (endZeros 0 front) back ↔ Hides (endZeros 0 other) back) := by
  have hBehind (place : Nat) (hPlace : front.length ≤ place) :
      EscapeAt (front ++ back) place ↔ EscapeAt (other ++ back) place := by
    obtain ⟨rest, rfl⟩ := Nat.exists_eq_add_of_le hPlace
    rw [escapeAt_append_right, hLength, escapeAt_append_right]
  constructor
  · intro h
    rw [← exists_escapeAt_iff hFront back, ← exists_escapeAt_iff hOther back, ← hLength]
    exact exists_congr fun place => and_congr_right fun _ => h place
  · intro h place
    rcases Nat.lt_or_ge place front.length with hPlace | hPlace
    · exact ⟨escapeAt_of_hides hLength hFront hOther h.mp hPlace,
        escapeAt_of_hides hLength.symm hOther hFront h.mpr (hLength ▸ hPlace)⟩
    · exact hBehind place hPlace

/-- Where the front is changed and holds no bytes 00 00 03 afterwards, its change is all that happens to
the payload exactly if these bytes stand at the same places. -/
theorem unescape_append_eq_iff (hLength : front.length = other.length)
    (hFront : hasEscape front = false) (hOther : hasEscape other = false) (back : Bytes) :
    unescape (other ++ back) = other ++ unescapeAfter (endZeros 0 front) back ↔
      SameEscapes (front ++ back) (other ++ back) := by
  rw [unescape_append hOther, List.append_cancel_left_eq, unescapeAfter_eq_iff,
    sameEscapes_append_iff hLength hFront hOther]
  exact Iff.comm

/-- Bytes 00 00 03 that were not there before stand at a place of their own. -/
theorem not_sameEscapes_append (hLength : front.length = other.length) (hFront : hasEscape front = false)
    (hOther : hasEscape other = true) (back : Bytes) :
    ¬ SameEscapes (front ++ back) (other ++ back) := by
  intro h
  obtain ⟨place, hEscape⟩ := (hasEscape_iff other).mp hOther
  have hPlace : place + 2 < other.length := (List.getElem?_eq_some_iff.mp hEscape.2.2).1
  have hBefore := (h place).mpr ((escapeAt_append_left back hPlace).mpr hEscape)
  rw [escapeAt_append_left back (hLength ▸ hPlace)] at hBefore
  rw [(hasEscape_iff front).mpr ⟨place, hBefore⟩] at hFront
  cases hFront

/-- Bytes 3 of which the last one is taken out read the same as if the first one is. -/
theorem eq_replicate_of_unescapeAfter {data back : Bytes} {zeros : Nat}
    (h : unescapeAfter 0 (data ++ back) = 3 :: (data ++ unescapeAfter zeros back)) :
    2 ≤ zeros ∧ data = List.replicate data.length 3 := by
  induction data with
  | nil =>
      refine ⟨?_, rfl⟩
      cases back with
      | nil => cases h
      | cons byte back =>
          rw [List.nil_append, List.nil_append, unescapeAfter, if_neg (by simp)] at h
          obtain ⟨rfl, hRest⟩ := List.cons_eq_cons.mp h
          by_contra hFew
          rw [unescapeAfter, if_neg fun hBoth => hFew hBoth.1] at hRest
          have hLength := congrArg List.length hRest
          have hZeros : countZeros 0 3 = 0 := rfl
          have hNone : countZeros zeros 3 = 0 := rfl
          rw [hZeros, hNone, List.length_cons] at hLength
          omega
  | cons byte data ih =>
      rw [List.cons_append, List.cons_append, unescapeAfter, if_neg (by simp)] at h
      obtain ⟨rfl, hRest⟩ := List.cons_eq_cons.mp h
      obtain ⟨hZeros, hData⟩ := ih hRest
      refine ⟨hZeros, ?_⟩
      rw [List.length_cons, List.replicate_succ, ← hData]

/-- Where bytes 00 00 03 arise in the front, its change is all that happens to the payload only if the
byte that is taken out was already there, behind zero bytes that are bytes 3 now. -/
theorem exists_of_unescape_append {zeros : Nat} (hOther : hasEscape other = true)
    (h : unescape (other ++ back) = other ++ unescapeAfter zeros back) :
    2 ≤ zeros ∧ ∃ first count, other = first ++ 0 :: 0 :: 3 :: List.replicate count 3 := by
  obtain ⟨first, rest, rfl, hFirst⟩ := exists_first_escape hOther
  simp only [List.append_assoc, List.cons_append] at h
  rw [unescape_first_escape hFirst, List.append_cancel_left_eq, List.cons_inj_right,
    List.cons_inj_right] at h
  obtain ⟨hZeros, hRest⟩ := eq_replicate_of_unescapeAfter h
  exact ⟨hZeros, first, rest.length, by rw [← hRest]⟩

/-- An escaped payload has nowhere more than two zero bytes in a row. -/
theorem endZeros_take_escapeAfter {zeros : Nat} (h : zeros ≤ 2) (data : Bytes) (count : Nat) :
    endZeros zeros ((escapeAfter zeros data).take count) ≤ 2 := by
  fun_induction escapeAfter zeros data generalizing count with
  | case1 zeros => simpa using h
  | case2 zeros byte data hEscape ih =>
      rcases count with _ | _ | count
      · exact h
      · exact Nat.zero_le 2
      · exact ih (countZeros_le (Nat.zero_le 2) (by simp)) count
  | case3 zeros byte data hPlain ih =>
      cases count with
      | zero => exact h
      | succ count =>
        refine ih (countZeros_le h ?_) count
        rintro rfl rfl
        exact hPlain ⟨Nat.le_refl 2, by decide⟩

end Changed

end Cadence.Nal
