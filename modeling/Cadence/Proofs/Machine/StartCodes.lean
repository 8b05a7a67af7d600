import Cadence.Proofs.Machine.Words
import Cadence.Proofs.Nal.StartCodes

/-!
The search for start codes on a machine. It looks at four bytes together as long as there are four, and
then from byte to byte. It notes the words that it does not look into, which are those without a zero byte
(`noteThreeBytes_eq`). No place beyond the data is looked at, and what is found is what the search on lists
finds (`findStartCode_eq`).
-/

namespace Cadence.Machine

open Nal

/-- Three bytes are looked at, but for those behind one that is wrong. -/
def startsAt (data : Bytes) (place : Nat) : Machine Bool := do
  if (← index data place) ≠ 0 then return false
  if (← index data (← add 64 place 1)) ≠ 0 then return false
  return (← index data (← add 64 place 2)) == 1

/-- The first of `count` places at which a start code begins. -/
def startsWithin (data : Bytes) : (count place : Nat) → Machine (Option Nat)
  | 0, _ => return none
  | count + 1, place => do
    if (← add 64 place 3) ≤ data.length then
      if ← startsAt data place then return some place
    startsWithin data count (place + 1)

/-- Four bytes as a word. -/
def littleEndian : Bytes → Machine UInt32
  | [a, b, c, d] => .ok (StartCode.word a b c d)
  | _ => stop .range

def byteRound (data : Bytes) (place : Nat) : Machine (Nat ⊕ Nat) := do
  if (← add 64 place 3) ≤ data.length then
    if ← startsAt data place then return .inr place
    return .inl (← add 64 place 1)
  else return .inr data.length

/-- A round of the search. Only a word with a zero byte is looked at byte by byte. The places of the words that
are not looked into are noted. -/
def wordRound (data : Bytes) : Nat × List Nat → Machine ((Nat × List Nat) ⊕ Nat × List Nat)
  | (place, passed) => do
    let behind ← add 64 place 4
    if behind ≤ data.length then
      let word ← littleEndian (← slice data place behind)
      if StartCode.hasZeroByte word then
        match ← startsWithin data 4 place with
        | some found => return .inr (found, passed)
        | none => return .inl (behind, passed)
      else return .inl (behind, passed ++ [place])
    else return .inr (← loop (byteRound data) (data.length + 1) place, passed)

/-- The next place at which a start code begins, or the end of the data, with the places of the words that are
not looked into. -/
def noteThreeBytes (data : Bytes) (start : Nat) : Machine (Nat × List Nat) :=
  loop (wordRound data) (data.length + 1) (start, [])

/-- What is found, without the notes. -/
def findThreeBytes (data : Bytes) (start : Nat) : Machine Nat := do
  return (← noteThreeBytes data start).1

/-- A zero byte directly in front of a start code belongs to it. -/
def findStartCode (data : Bytes) (start : Nat) : Machine Nat := do
  let found ← findThreeBytes data start
  if start < found ∧ found < data.length then
    let before ← sub found 1
    if (← index data before) = 0 then return before
  return found

section Places

variable {data rest : Bytes} {place : Nat} {byte : UInt8}

theorem drop_succ_of_drop (h : data.drop place = byte :: rest) : data.drop (place + 1) = rest := by
  rw [← List.drop_drop, h]
  rfl

theorem length_of_drop (h : data.drop place = rest) (hPlace : place ≤ data.length) :
    data.length = place + rest.length := by
  rw [← h, List.length_drop]
  omega

/-- Three bytes from a place are a start code if the data begins with one there. -/
theorem startsAt_eq (hPlace : place + 3 ≤ data.length) (hSize : data.length < 2 ^ 63) :
    startsAt data place = .ok (StartCode.startsHere (data.drop place)) := by
  obtain ⟨a, b, c, rest, hDrop⟩ : ∃ a b c rest, data.drop place = a :: b :: c :: rest := by
    have hLength : 3 ≤ (data.drop place).length := by
      rw [List.length_drop]
      omega
    match data.drop place, hLength with
    | a :: b :: c :: rest, _ => exact ⟨a, b, c, rest, rfl⟩
  have hSecond := drop_succ_of_drop hDrop
  have hThird := drop_succ_of_drop hSecond
  simp only [startsAt, add_of_lt (show place + 1 < 2 ^ 64 by omega),
    add_of_lt (show place + 2 < 2 ^ 64 by omega), index_of_drop hDrop, index_of_drop hSecond,
    index_of_drop hThird, ok_bind, hDrop]
  by_cases ha : a = 0
  · by_cases hb : b = 0
    · subst ha hb
      simp [StartCode.startsHere_zeros, pure, Except.pure]
    · subst ha
      simp [hb, StartCode.startsHere_zero_of_ne_zero hb, pure, Except.pure]
  · simp [ha, StartCode.startsHere_of_ne_zero ha, pure, Except.pure]

theorem exists_drop_eq_cons (h : place < data.length) :
    ∃ byte, data.drop place = byte :: data.drop (place + 1) :=
  ⟨data[place], List.drop_eq_getElem_cons h⟩

theorem exists_drop_eq_word (h : place + 4 ≤ data.length) :
    ∃ a b c d rest, data.drop place = a :: b :: c :: d :: rest := by
  have hLength : 4 ≤ (data.drop place).length := by
    rw [List.length_drop]
    omega
  match data.drop place, hLength with
  | a :: b :: c :: d :: rest, _ => exact ⟨a, b, c, d, rest, rfl⟩

end Places

/-- The next start code from a place on, or the end of the data. -/
def nextStartCode (data : Bytes) (place : Nat) : Nat :=
  (StartCode.bytewise (data.drop place) place).getD data.length

/-- The places of the words between two places that hold no zero byte. Words are counted from the first. -/
def fullWords (data : Bytes) (start stop : Nat) : List Nat :=
  (List.range' start ((stop - start) / 4) 4).filter fun place => 0 ∉ data.extract place (place + 4)

section Search

variable {data : Bytes} {place stop : Nat}

theorem bytewise_add (data : Bytes) (index more : Nat) :
    StartCode.bytewise data (more + index) = (StartCode.bytewise data index).map (more + ·) := by
  induction data generalizing index with
  | nil => rfl
  | cons byte rest ih =>
      rw [StartCode.bytewise, StartCode.bytewise]
      split
      · rfl
      · exact ih (index + 1)

/-- The next start code from a place on is the first one in the data behind it. -/
theorem nextStartCode_eq (data : Bytes) (place : Nat) :
    nextStartCode data place
      = match StartCode.find? (data.drop place) with
        | none => data.length
        | some code => place + code := by
  rw [nextStartCode, StartCode.find?_eq_bytewise, ← Nat.add_zero place, bytewise_add, Nat.add_zero]
  cases StartCode.bytewise (data.drop place) 0 <;> rfl

/-- It lies between the place and the end. -/
theorem nextStartCode_bounds (hPlace : place ≤ data.length) :
    place ≤ nextStartCode data place ∧ nextStartCode data place ≤ data.length := by
  rw [nextStartCode_eq]
  cases hCode : StartCode.find? (data.drop place) with
  | none => exact ⟨hPlace, le_rfl⟩
  | some code =>
      have hLess := StartCode.find?_lt hCode
      rw [List.length_drop] at hLess
      exact ⟨Nat.le_add_right _ _, show place + code ≤ data.length by omega⟩

/-- A search byte by byte stops at a start code or goes on behind the byte. -/
theorem bytewise_drop (h : place < data.length) :
    StartCode.bytewise (data.drop place) place
      = if StartCode.startsHere (data.drop place) then some place
        else StartCode.bytewise (data.drop (place + 1)) (place + 1) := by
  obtain ⟨byte, hDrop⟩ := exists_drop_eq_cons h
  rw [hDrop, StartCode.bytewise]

/-- Too close to the end there is no room for a start code. -/
theorem not_startsHere_of_short (h : data.length < place + 3) :
    StartCode.startsHere (data.drop place) = false := by
  rw [Bool.eq_false_iff]
  intro hHere
  have := StartCode.length_of_startsHere hHere
  rw [List.length_drop] at this
  omega

/-- Looking at a few places of the search finds the first start code among them, or leaves the rest
of the search. -/
theorem startsWithin_eq (count : Nat) (hPlace : place + count ≤ data.length)
    (hSize : data.length < 2 ^ 63) :
    ∃ found, startsWithin data count place = .ok found ∧
      StartCode.bytewise (data.drop place) place
        = found.or (StartCode.bytewise (data.drop (place + count)) (place + count)) ∧
      ∀ code ∈ found, code < place + count := by
  induction count generalizing place with
  | zero => exact ⟨none, rfl, rfl, nofun⟩
  | succ count ih =>
      obtain ⟨found, hFound, hRest, hNear⟩ := @ih (place + 1) (by omega)
      rw [Nat.add_right_comm] at hRest hNear
      rw [startsWithin, add_of_lt (by omega), ok_bind, bytewise_drop (by omega)]
      by_cases hRoom : place + 3 ≤ data.length
      · rw [if_pos hRoom, startsAt_eq hRoom hSize, ok_bind]
        cases StartCode.startsHere (data.drop place) with
        | true =>
            refine ⟨some place, rfl, rfl, fun code hCode => ?_⟩
            cases hCode
            omega
        | false => exact ⟨found, hFound, hRest, hNear⟩
      · rw [if_neg hRoom, not_startsHere_of_short (by omega)]
        exact ⟨found, hFound, hRest, hNear⟩

/-- Byte by byte the loop finds the next start code, by induction over the bytes that are left. -/
theorem rounds_byteRound (hSize : data.length < 2 ^ 63) (hPlace : place ≤ data.length) :
    Rounds (byteRound data) (· ≤ data.length) (data.length - ·)
      (fun place => .ok (nextStartCode data place)) place := by
  by_cases hRoom : place + 3 ≤ data.length
  · have hNext := @bytewise_drop data place (by omega)
    have hRound : byteRound data place
        = if StartCode.startsHere (data.drop place) then .ok (.inr place)
          else .ok (.inl (place + 1)) := by
      rw [byteRound, add_of_lt (by omega), ok_bind, if_pos hRoom, startsAt_eq hRoom hSize, ok_bind,
        add_of_lt (by omega)]
      rfl
    cases hHere : StartCode.startsHere (data.drop place) with
    | true =>
        rw [hHere, if_pos rfl] at hNext hRound
        exact .done hRound (by rw [nextStartCode, hNext]; rfl)
    | false =>
        rw [hHere, if_neg Bool.false_ne_true] at hNext hRound
        refine .next hRound ?_ ?_ (by simp only [nextStartCode, hNext])
        · show place + 1 ≤ data.length
          omega
        · show data.length - (place + 1) < data.length - place
          omega
  · have hNone := @StartCode.bytewise_of_short (data.drop place) (by rw [List.length_drop]; omega)
      place
    have hRound : byteRound data place = .ok (.inr data.length) := by
      rw [byteRound, add_of_lt (by omega), ok_bind, if_neg hRoom]
      rfl
    exact .done hRound (by rw [nextStartCode, hNone]; rfl)

/-- A word without a zero byte holds the beginning of no start code. -/
theorem bytewise_drop_word {a b c d : UInt8} {rest : Bytes} (hDrop : data.drop place = a :: b :: c :: d :: rest)
    (hFull : a ≠ 0 ∧ b ≠ 0 ∧ c ≠ 0 ∧ d ≠ 0) :
    StartCode.bytewise (data.drop place) place = StartCode.bytewise (data.drop (place + 4)) (place + 4) := by
  obtain ⟨ha, hb, hc, hd⟩ := hFull
  rw [← List.drop_drop, hDrop]
  simp [StartCode.bytewise, ha, hb, hc, hd]

theorem fullWords_of_near (h : stop < place + 4) (data : Bytes) : fullWords data place stop = [] := by
  have hNone : (stop - place) / 4 = 0 := by omega
  rw [fullWords, hNone]
  rfl

/-- The first word is among those without a zero byte or not, and the others follow. -/
theorem fullWords_of_far (h : place + 4 ≤ stop) (data : Bytes) :
    fullWords data place stop
      = (if 0 ∈ data.extract place (place + 4) then [] else [place]) ++ fullWords data (place + 4) stop := by
  have hCount : (stop - place) / 4 = (stop - (place + 4)) / 4 + 1 := by omega
  rw [fullWords, hCount, List.range'_succ, List.filter_cons, fullWords]
  simp only [decide_eq_true_eq, ite_not]
  split <;> rfl

/-- The test for a zero byte is positive exactly if the word holds one. Behind a word for which it is not,
the search goes on as if it had begun there. -/
theorem exists_word (hRoom : place + 4 ≤ data.length) :
    ∃ word, (slice data place (place + 4) >>= littleEndian) = .ok word ∧
      (StartCode.hasZeroByte word = false ↔ 0 ∉ data.extract place (place + 4)) ∧
      (StartCode.hasZeroByte word = false → nextStartCode data (place + 4) = nextStartCode data place) := by
  obtain ⟨a, b, c, d, rest, hDrop⟩ := exists_drop_eq_word hRoom
  have hBytes : data.extract place (place + 4) = [a, b, c, d] := by
    rw [List.extract_eq_take_drop, hDrop, Nat.add_sub_cancel_left]
    rfl
  refine ⟨StartCode.word a b c d, ?_, ?_, fun hFull => ?_⟩
  · rw [slice_of_le (by omega) hRoom, ← List.extract_eq_take_drop, hBytes]
    rfl
  · rw [StartCode.hasZeroByte_word_iff, hBytes]
    simp [eq_comm]
  · rw [nextStartCode, nextStartCode, bytewise_drop_word hDrop (StartCode.ne_zero_of_not_hasZeroByte hFull)]

/-- What the search comes to from a state: the next start code, and the words that were passed over before or
are passed over until then. -/
def noted (data : Bytes) (state : Nat × List Nat) : Machine (Nat × List Nat) :=
  .ok (nextStartCode data state.1,
    state.2 ++ fullWords data state.1 (nextStartCode data state.1))

/-- A word is noted if it holds no zero byte, and looked into if it does. The search ends in a word in which a
start code begins, and goes on behind every other. -/
theorem wordRound_of_word (hSize : data.length < 2 ^ 63) (hRoom : place + 4 ≤ data.length) (passed : List Nat) :
    (wordRound data (place, passed) = .ok (.inr (nextStartCode data place, passed)) ∧
        nextStartCode data place < place + 4) ∨
      wordRound data (place, passed)
          = .ok (.inl (place + 4, passed ++ if 0 ∈ data.extract place (place + 4) then [] else [place])) ∧
        nextStartCode data (place + 4) = nextStartCode data place := by
  obtain ⟨word, hWord, hTest, hNext⟩ := exists_word hRoom
  have hRound : wordRound data (place, passed)
      = if StartCode.hasZeroByte word then (startsWithin data 4 place).bind fun
          | some found => .ok (.inr (found, passed))
          | none => .ok (.inl (place + 4, passed))
        else .ok (.inl (place + 4, passed ++ [place])) := by
    rw [wordRound, add_of_lt (by omega), ok_bind, if_pos hRoom, ← bind_assoc, hWord, ok_bind]
    rfl
  by_cases hZero : 0 ∈ data.extract place (place + 4)
  · obtain ⟨found, hFound, hSearch, hNear⟩ := startsWithin_eq 4 hRoom hSize
    rw [if_pos (by simpa using mt hTest.mp (not_not_intro hZero)), hFound] at hRound
    cases found with
    | some found =>
        have hCode : nextStartCode data place = found := by rw [nextStartCode, hSearch]; rfl
        exact .inl ⟨hCode ▸ hRound, hCode ▸ hNear found rfl⟩
    | none =>
        rw [if_pos hZero, List.append_nil]
        exact .inr ⟨hRound, by rw [nextStartCode, nextStartCode, hSearch, Option.none_or]⟩
  · rw [hTest.mpr hZero, if_neg Bool.false_ne_true] at hRound
    rw [if_neg hZero]
    exact .inr ⟨hRound, hNext (hTest.mpr hZero)⟩

/-- Too few bytes for a word are looked at one by one. -/
theorem wordRound_of_short (hSize : data.length < 2 ^ 63) (hPlace : place ≤ data.length)
    (hShort : data.length < place + 4) (passed : List Nat) :
    wordRound data (place, passed) = .ok (.inr (nextStartCode data place, passed)) := by
  have hBytes : loop (byteRound data) (data.length + 1) place = .ok (nextStartCode data place) :=
    loop_eq (fun place hPlace => rounds_byteRound hSize hPlace) hPlace (by omega)
  rw [wordRound, add_of_lt (by omega), ok_bind, if_neg (by omega), hBytes]
  rfl

/-- Each round of the search keeps what it comes to, and leaves less of the data. -/
theorem rounds_wordRound (hSize : data.length < 2 ^ 63) {state : Nat × List Nat}
    (hPlace : state.1 ≤ data.length) :
    Rounds (wordRound data) (·.1 ≤ data.length) (data.length - ·.1) (noted data) state := by
  obtain ⟨place, passed⟩ := state
  dsimp only at hPlace
  obtain ⟨-, hTill⟩ := nextStartCode_bounds hPlace
  rcases Nat.lt_or_ge data.length (place + 4) with hShort | hRoom
  · refine .done (wordRound_of_short hSize hPlace hShort passed) ?_
    rw [noted, fullWords_of_near (Nat.lt_of_le_of_lt hTill hShort), List.append_nil]
  · rcases wordRound_of_word hSize hRoom passed with ⟨hRound, hNear⟩ | ⟨hRound, hNext⟩
    · refine .done hRound ?_
      rw [noted, fullWords_of_near hNear, List.append_nil]
    · have hFar : place + 4 ≤ nextStartCode data place := hNext ▸ (nextStartCode_bounds hRoom).1
      refine .next hRound hRoom ?_ ?_
      · show data.length - (place + 4) < data.length - place
        omega
      · simp only [noted, hNext, fullWords_of_far hFar, List.append_assoc]

/-- The search comes to the next start code, and looks into all words in front of it but those without a zero
byte. -/
theorem noteThreeBytes_eq (hSize : data.length < 2 ^ 63) (hPlace : place ≤ data.length) :
    noteThreeBytes data place
      = .ok (nextStartCode data place, fullWords data place (nextStartCode data place)) := by
  have hFirst : (place, ([] : List Nat)).1 ≤ data.length := hPlace
  exact loop_eq (fun state hState => rounds_wordRound hSize hState) hFirst (by dsimp only; omega)

/-- Words at first and then bytes, the search finds the next start code and meets no hazard. -/
theorem findThreeBytes_eq (hSize : data.length < 2 ^ 63) (hPlace : place ≤ data.length) :
    findThreeBytes data place = .ok (nextStartCode data place) := by
  rw [findThreeBytes, noteThreeBytes_eq hSize hPlace]
  rfl

/-- Where the data in front of the next start code ends. -/
def stopBefore (data : Bytes) (place : Nat) : Nat :=
  match StartCode.find? (data.drop place) with
  | none => data.length
  | some code => place + sizeBefore (data.drop place) code

/-- One byte before it may belong to the start code too. -/
theorem findStartCode_eq (hSize : data.length < 2 ^ 63) (hPlace : place ≤ data.length) :
    findStartCode data place = .ok (stopBefore data place) := by
  rw [findStartCode, findThreeBytes_eq hSize hPlace, ok_bind, nextStartCode_eq, stopBefore]
  cases hCode : StartCode.find? (data.drop place) with
  | none =>
      dsimp only
      rw [if_neg (fun h => absurd h.2 (Nat.lt_irrefl _))]
      rfl
  | some code =>
      have hLess := StartCode.find?_lt hCode
      rw [List.length_drop] at hLess
      dsimp only
      rcases Nat.eq_zero_or_pos code with rfl | hCode
      · rw [if_neg (fun h => absurd h.1 (Nat.lt_irrefl _)), sizeBefore,
          if_neg (fun h => absurd h.1 (Nat.lt_irrefl _))]
        rfl
      · have hRange : place < place + code ∧ place + code < data.length := by omega
        have hBefore : place + code - 1 = place + (code - 1) := by omega
        obtain ⟨byte, hDrop⟩ := @exists_drop_eq_cons data (place + (code - 1)) (by omega)
        have hByte : (data.drop place)[code - 1]? = some byte := by
          rw [List.getElem?_drop, getElem?_of_drop hDrop]
        rw [if_pos hRange, sub_of_le (Nat.le_trans hCode (Nat.le_add_left _ _)), ok_bind, hBefore,
          index_of_drop hDrop, ok_bind, sizeBefore, hByte]
        by_cases hZero : byte = 0
        · rw [if_pos hZero, if_pos ⟨hCode, congrArg some hZero⟩]
          rfl
        · rw [if_neg hZero, if_neg (fun h => hZero (Option.some.inj h.2))]
          rfl

end Search

end Cadence.Machine
