import Cadence.Proofs.Nal.Transport

/-!
Finding the units of a packet again after bytes within them have changed. Behind length fields the same
units are found, and behind start codes those that are still told apart from what follows them
(`layout_congr`): no start code begins in such a unit, and no zero byte at its end is taken for part of the
start code behind it. This holds of all units that are found (`closed_of_scan`).
-/

namespace Cadence.Nal

namespace StartCode

/-- A start code begins at a place. -/
def At (data : Bytes) (place : Nat) : Prop :=
  startsHere (data.drop place) = true

theorem startsHere_iff (data : Bytes) :
    startsHere data = true ↔ data[0]? = some 0 ∧ data[1]? = some 0 ∧ data[2]? = some 1 := by
  constructor
  · intro h
    unfold startsHere at h
    split at h
    case h_1 => exact ⟨rfl, rfl, rfl⟩
    case h_2 => cases h
  · rintro ⟨hFirst, hSecond, hThird⟩
    rcases data with _ | ⟨_, _ | ⟨_, _ | ⟨_, rest⟩⟩⟩
    · cases hFirst
    · cases hSecond
    · cases hThird
    · cases hFirst
      cases hSecond
      cases hThird
      rfl

/-- A start code is two zeros and a one. -/
theorem at_iff (data : Bytes) (place : Nat) : At data place ↔
    data[place]? = some 0 ∧ data[place + 1]? = some 0 ∧ data[place + 2]? = some 1 := by
  rw [At, startsHere_iff, List.getElem?_drop, List.getElem?_drop, List.getElem?_drop, Nat.add_zero]

theorem at_drop (data : Bytes) (offset place : Nat) :
    At (data.drop offset) place ↔ At data (offset + place) := by
  rw [At, At, List.drop_drop]

theorem le_of_bytewise {data : Bytes} {index found : Nat} (h : bytewise data index = some found) :
    index ≤ found := by
  induction data generalizing index with
  | nil => cases h
  | cons byte rest ih =>
      rw [bytewise] at h
      split at h
      case isTrue =>
        cases h
        exact Nat.le_refl _
      case isFalse => exact Nat.le_of_succ_le (ih h)

/-- A search byte by byte finds the first place at which a start code stands. -/
theorem bytewise_eq_some_iff (data : Bytes) (index code : Nat) :
    bytewise data index = some (index + code) ↔ At data code ∧ ∀ place < code, ¬ At data place := by
  induction data generalizing index code with
  | nil => simp [bytewise, At, startsHere]
  | cons byte rest ih =>
      rw [bytewise]
      cases code with
      | zero =>
          by_cases hHere : startsHere (byte :: rest)
          · rw [if_pos hHere]
            exact iff_of_true rfl ⟨hHere, by simp⟩
          · rw [if_neg hHere]
            refine iff_of_false (fun hFound => ?_) fun hBoth => hHere hBoth.1
            exact Nat.not_succ_le_self index (le_of_bytewise hFound)
      | succ code =>
          have hPlace : index + (code + 1) = index + 1 + code := by omega
          by_cases hHere : startsHere (byte :: rest)
          · rw [if_pos hHere]
            refine iff_of_false (by simp) fun hBoth => ?_
            exact hBoth.2 0 (Nat.succ_pos code) hHere
          · rw [if_neg hHere, hPlace, ih]
            refine and_congr_right fun _ => ⟨fun hNone place hLess => ?_, fun hNone place hLess =>
              hNone (place + 1) (Nat.succ_lt_succ hLess)⟩
            cases place with
            | zero => exact hHere
            | succ place => exact hNone place (Nat.lt_of_succ_lt_succ hLess)

/-- The first start code is found, and no other one. -/
theorem find?_eq_some_iff (data : Bytes) (code : Nat) :
    find? data = some code ↔ At data code ∧ ∀ place < code, ¬ At data place := by
  have hFound := bytewise_eq_some_iff data 0 code
  rwa [Nat.zero_add, ← find?_eq_bytewise] at hFound

/-- No start code occurs exactly if none stands at any place. -/
theorem occurs_eq_false_iff (data : Bytes) : occurs data = false ↔ ∀ place, ¬ At data place := by
  induction data with
  | nil => simp [occurs, At, startsHere]
  | cons byte rest ih =>
      rw [occurs, Bool.or_eq_false_iff, ih]
      constructor
      · rintro ⟨hHere, hRest⟩ (_ | place)
        · exact Bool.not_eq_true _ |>.mpr hHere
        · exact hRest place
      · intro hNone
        exact ⟨Bool.not_eq_true _ |>.mp (hNone 0), fun place => hNone (place + 1)⟩

/-- No start code is found exactly if none stands at any place. -/
theorem find?_eq_none_iff_not_at (data : Bytes) : find? data = none ↔ ∀ place, ¬ At data place :=
  (find?_eq_none_iff data).trans (occurs_eq_false_iff data)

end StartCode

open StartCode (At)

/-- A unit is told apart from what follows it: no start code begins in it, and it does not end with a zero
byte directly in front of one. -/
structure Closed (data : Bytes) (span : Span) : Prop where
  inside : ∀ place, span.offset ≤ place → place + 3 ≤ span.payloadEnd → ¬ At data place
  behind : ¬ (data[span.payloadEnd - 1]? = some 0 ∧ At data span.payloadEnd)

section Closed

variable {data : Bytes}

/-- A zero byte in front of a start code belongs to it. -/
theorem sizeBefore_eq (data : Bytes) (code : Nat) :
    sizeBefore data code = code ∧ ¬ (0 < code ∧ data[code - 1]? = some 0) ∨
      0 < code ∧ sizeBefore data code = code - 1 ∧ data[code - 1]? = some 0 := by
  unfold sizeBefore
  split
  case isTrue h => exact .inr ⟨h.1, rfl, h.2⟩
  case isFalse h => exact .inl ⟨rfl, h⟩

theorem not_at_of_length_le {place : Nat} (h : data.length ≤ place) : ¬ At data place := by
  rw [StartCode.at_iff, List.getElem?_eq_none h]
  rintro ⟨⟨⟩, _⟩

/-- A unit that ends with the data is closed if no start code begins in it. -/
theorem closed_of_none {header : UInt8} {offset : Nat} (h : StartCode.find? (data.drop offset) = none) :
    Closed data (.ofExtent ⟨header, offset, (data.drop offset).length⟩) where
  inside place hFrom _ := by
    obtain ⟨index, rfl⟩ := Nat.exists_eq_add_of_le hFrom
    rw [← StartCode.at_drop]
    exact (StartCode.find?_eq_none_iff_not_at _).mp h index
  behind hBoth := by
    refine not_at_of_length_le ?_ hBoth.2
    show data.length ≤ offset + (data.drop offset).length
    rw [List.length_drop]
    omega

/-- A unit in front of the first start code is closed. -/
theorem closed_of_some {header : UInt8} {offset code : Nat}
    (h : StartCode.find? (data.drop offset) = some code)
    (hSize : sizeBefore (data.drop offset) code ≠ 0) :
    Closed data (.ofExtent ⟨header, offset, sizeBefore (data.drop offset) code⟩) := by
  obtain ⟨_, hFirst⟩ := (StartCode.find?_eq_some_iff _ _).mp h
  have hBefore := sizeBefore_le (data.drop offset) code
  refine ⟨fun place hFrom hTill => ?_, ?_⟩
  · obtain ⟨index, rfl⟩ := Nat.exists_eq_add_of_le hFrom
    have hLess : index < code := by
      change offset + index + 3 ≤ offset + sizeBefore (data.drop offset) code at hTill
      omega
    rw [← StartCode.at_drop]
    exact hFirst index hLess
  · rintro ⟨hZero, hAt⟩
    change At data (offset + sizeBefore (data.drop offset) code) at hAt
    change data[offset + sizeBefore (data.drop offset) code - 1]? = some 0 at hZero
    rw [← StartCode.at_drop] at hAt
    obtain ⟨hWhole, hLast⟩ | ⟨hSome, hShort, _⟩ := sizeBefore_eq (data.drop offset) code
    · refine hLast ⟨by omega, ?_⟩
      rw [hWhole, Nat.add_sub_assoc (by omega)] at hZero
      rwa [List.getElem?_drop]
    · exact hFirst _ (by omega) hAt

/-- Units behind start codes are closed. -/
theorem closed_of_unitsAfterCode (data : Bytes) (offset : Nat) :
    ∀ extent ∈ (unitsAfterCode offset (data.drop offset)).extents, Closed data (.ofExtent extent) := by
  generalize hPiece : data.drop offset = piece
  fun_induction unitsAfterCode offset piece with
  | case1 => simp [Layout.done]
  | case2 offset header rest hNone =>
      have hClosed := @closed_of_none data header offset (by rwa [hPiece])
      rw [hPiece] at hClosed
      simpa [Layout.cons, Layout.done] using hClosed
  | case3 => simp [Layout.stopped]
  | case4 offset header rest code hCode size hSize _ ih =>
      have hClosed := @closed_of_some data header offset code (by rwa [hPiece]) (by rwa [hPiece])
      rw [hPiece] at hClosed
      refine List.forall_mem_cons.mpr ⟨hClosed, ih ?_⟩
      rw [Nat.add_assoc, ← List.drop_drop, hPiece]

/-- Every unit that is laid out ends at a start code or with the data. -/
theorem closed_of_layout (data : Bytes) :
    ∀ extent ∈ (layout .annexB data).extents, Closed data (.ofExtent extent) := by
  rw [layout]
  split
  case h_1 => simp [Layout.done]
  case h_2 code _ => exact closed_of_unitsAfterCode data (code + 3)

/-- The units that are reported for a packet behind start codes are closed. -/
theorem closed_of_scan {result : Scan} (h : scan .annexB data = .ok result) :
    ∀ span ∈ result.spans, Closed data span := by
  obtain ⟨kept, hKept, hSpans⟩ := exists_sublist_of_select h
  rw [hSpans]
  intro span hSpan
  obtain ⟨extent, hExtent, rfl⟩ := List.mem_map.mp hSpan
  exact closed_of_layout data extent (hKept.subset hExtent)

end Closed

section Congr

variable {left right : Bytes}

theorem drop_congr {offset : Nat} (h : ∀ place, offset ≤ place → left[place]? = right[place]?) :
    left.drop offset = right.drop offset := by
  apply List.ext_getElem?
  intro index
  rw [List.getElem?_drop, List.getElem?_drop, h _ (Nat.le_add_right _ _)]

theorem headD_drop_congr {offset : Nat} (h : left[offset]? = right[offset]?) :
    (left.drop offset).headD 0 = (right.drop offset).headD 0 := by
  rw [List.headD_eq_head?_getD, List.headD_eq_head?_getD, List.head?_drop, List.head?_drop, h]

/-- Whether a start code stands at a place depends on three bytes only. -/
theorem at_congr {place : Nat} (h : ∀ index, index < 3 → left[place + index]? = right[place + index]?) :
    At left place ↔ At right place := by
  have hFirst := h 0 (by decide)
  rw [Nat.add_zero] at hFirst
  rw [StartCode.at_iff, StartCode.at_iff, hFirst, h 1 (by decide), h 2 (by decide)]

/-- The bytes of a unit have not changed. -/
def Untouched (left right : Bytes) (extent : Extent) : Prop :=
  ∀ place, extent.offset ≤ place → place < extent.offset + extent.size → left[place]? = right[place]?

/-- A unit that has not changed is still closed if what follows it has not changed either. -/
theorem Closed.congr {extent : Extent} (h : Closed left (.ofExtent extent)) (hSize : extent.size ≠ 0)
    (hUnit : Untouched left right extent)
    (hBehind : ∀ index, index < 3 →
      left[extent.offset + extent.size + index]? = right[extent.offset + extent.size + index]?) :
    Closed right (.ofExtent extent) where
  inside place hFrom hTill hHere := by
    have hTill' : place + 3 ≤ extent.offset + extent.size := hTill
    have hFrom' : extent.offset ≤ place := hFrom
    refine h.inside place hFrom hTill ((at_congr fun index hIndex => ?_).mpr hHere)
    exact hUnit (place + index) (by omega) (by omega)
  behind hBoth := by
    obtain ⟨hZero, hAt⟩ := hBoth
    refine h.behind ⟨?_, (at_congr hBehind).mpr hAt⟩
    show left[extent.offset + extent.size - 1]? = some 0
    rw [hUnit _ (by omega) (by omega)]
    exact hZero

/-- A start code stands directly behind a unit, or behind one zero byte. -/
structure Ends (data : Bytes) (stop code : Nat) : Prop where
  here : At data code
  near : stop = code ∨ stop + 1 = code ∧ data[stop]? = some 0

/-- Zero bytes lie between a unit and the last byte of the start code. -/
theorem Ends.zero {data : Bytes} {stop code place : Nat} (h : Ends data stop code)
    (hFrom : stop ≤ place) (hTill : place ≤ code + 1) : data[place]? = some 0 := by
  obtain ⟨hFirst, hSecond, _⟩ := (StartCode.at_iff _ _).mp h.here
  rcases Nat.lt_trichotomy place code with hLess | rfl | hMore
  · obtain hSame | ⟨hNext, hZero⟩ := h.near
    · omega
    · obtain rfl : place = stop := by omega
      exact hZero
  · exact hFirst
  · obtain rfl : place = code + 1 := by omega
    exact hSecond

/-- Where a unit ends depends only on the bytes from there to the end of the start code behind
it. -/
theorem Ends.congr {stop code : Nat} (h : Ends left stop code)
    (hBytes : ∀ place, stop ≤ place → place < code + 3 → left[place]? = right[place]?) :
    Ends right stop code := by
  obtain ⟨hHere, hNear⟩ := h
  have hStop : stop ≤ code := by omega
  refine ⟨(at_congr fun index hIndex => hBytes (code + index) (by omega) (by omega)).mp hHere, ?_⟩
  rwa [hBytes stop (Nat.le_refl _) (by omega)] at hNear

/-- The start code that is found and the size in front of it are those of a closed unit that this start
code ends. -/
theorem find?_sizeBefore_iff {data : Bytes} (header : UInt8) {offset size code : Nat}
    (hSize : size ≠ 0) :
    StartCode.find? (data.drop offset) = some code ∧ sizeBefore (data.drop offset) code = size ↔
      Ends data (offset + size) (offset + code) ∧ Closed data (.ofExtent ⟨header, offset, size⟩) := by
  constructor
  · rintro ⟨hCode, rfl⟩
    obtain ⟨hAt, _⟩ := (StartCode.find?_eq_some_iff _ _).mp hCode
    refine ⟨⟨(StartCode.at_drop _ _ _).mp hAt, ?_⟩, closed_of_some hCode hSize⟩
    obtain ⟨hWhole, _⟩ | ⟨hSome, hShort, hZero⟩ := sizeBefore_eq (data.drop offset) code
    · exact .inl (by rw [hWhole])
    · rw [List.getElem?_drop, ← hShort] at hZero
      exact .inr ⟨by omega, hZero⟩
  · rintro ⟨hEnds, hClosed⟩
    refine ⟨(StartCode.find?_eq_some_iff _ _).mpr
      ⟨(StartCode.at_drop _ _ _).mpr hEnds.here, fun place hLess hHere => ?_⟩, ?_⟩
    · rw [StartCode.at_drop] at hHere
      by_cases hIn : place + 3 ≤ size
      · refine hClosed.inside (offset + place) (Nat.le_add_right _ _) ?_ hHere
        show offset + place + 3 ≤ offset + size
        omega
      · have hThird := ((StartCode.at_iff _ _).mp hHere).2.2
        rw [hEnds.zero (by omega) (by omega)] at hThird
        cases hThird
    · obtain hSame | ⟨hNext, hZero⟩ := hEnds.near
      · obtain rfl : size = code := Nat.add_left_cancel hSame
        refine if_neg fun hBefore => hClosed.behind ⟨?_, hEnds.here⟩
        have hLast := hBefore.2
        rw [List.getElem?_drop, ← Nat.add_sub_assoc hBefore.1] at hLast
        exact hLast
      · obtain rfl : code = size + 1 := by omega
        refine if_pos ⟨Nat.succ_pos size, ?_⟩
        rw [List.getElem?_drop]
        exact hZero

/-- Where a start code follows a unit, the unit still ends there, if it is closed or has not changed. -/
theorem find?_congr {header : UInt8} {offset size code : Nat} (hSize : size ≠ 0)
    (hCode : StartCode.find? (left.drop offset) = some code)
    (hBefore : sizeBefore (left.drop offset) code = size)
    (hGap : ∀ place, offset + size ≤ place → place < offset + code + 3 → left[place]? = right[place]?)
    (hUnit : Closed right (.ofExtent ⟨header, offset, size⟩) ∨
      Untouched left right ⟨header, offset, size⟩) :
    StartCode.find? (right.drop offset) = some code ∧ sizeBefore (right.drop offset) code = size := by
  obtain ⟨hEnds, hClosed⟩ := (find?_sizeBefore_iff header hSize).mp ⟨hCode, hBefore⟩
  have hShort : size ≤ code := hBefore ▸ sizeBefore_le _ _
  refine (find?_sizeBefore_iff header hSize).mpr ⟨hEnds.congr hGap, ?_⟩
  rcases hUnit with hClosed | hSame
  · exact hClosed
  · exact hClosed.congr hSize hSame fun index hIndex => hGap _ (by simp) (by simp; omega)

/-- A unit up to the end of the data ends there exactly if no start code follows. -/
theorem find?_eq_none_iff_closed {data : Bytes} (header : UInt8) (offset : Nat) :
    StartCode.find? (data.drop offset) = none ↔
      Closed data (.ofExtent ⟨header, offset, (data.drop offset).length⟩) := by
  refine ⟨closed_of_none, fun hClosed => ?_⟩
  rw [StartCode.find?_eq_none_iff_not_at]
  intro index hHere
  rw [StartCode.at_drop] at hHere
  have hEnd : offset + index + 2 < data.length :=
    (List.getElem?_eq_some_iff.mp ((StartCode.at_iff _ _).mp hHere).2.2).1
  refine hClosed.inside (offset + index) (Nat.le_add_right _ _) ?_ hHere
  show offset + index + 3 ≤ offset + (data.drop offset).length
  rw [List.length_drop]
  omega

/-- Where a unit ends with the data, there is still no start code, if the unit is closed or has not
changed. -/
theorem find?_congr_none {header : UInt8} {offset : Nat} (hLength : left.length = right.length)
    (hNone : StartCode.find? (left.drop offset) = none)
    (hUnit : Closed right (.ofExtent ⟨header, offset, (left.drop offset).length⟩) ∨
      Untouched left right ⟨header, offset, (left.drop offset).length⟩) :
    StartCode.find? (right.drop offset) = none := by
  have hSize : (left.drop offset).length = (right.drop offset).length := by
    rw [List.length_drop, List.length_drop, hLength]
  rcases hUnit with hClosed | hSame
  · rw [hSize] at hClosed
    exact (find?_eq_none_iff_closed header offset).mpr hClosed
  · rw [← drop_congr fun place hFrom => ?_, hNone]
    by_cases hIn : place < left.length
    · refine hSame place hFrom ?_
      show place < offset + (left.drop offset).length
      rw [List.length_drop]
      omega
    · rw [List.getElem?_eq_none (by omega), List.getElem?_eq_none (by omega)]

/-- From an offset on, two packets are the same but for bytes behind the headers of some units. -/
def SameFrom (left right : Bytes) (offset : Nat) (extents : List Extent) : Prop :=
  ∀ place, offset ≤ place →
    (∀ extent ∈ extents, ¬ (extent.offset < place ∧ place < extent.offset + extent.size)) →
      left[place]? = right[place]?

namespace SameFrom

variable {offset later : Nat} {extent : Extent} {extents : List Extent}

theorem tail (h : SameFrom left right offset (extent :: extents)) (hFrom : offset ≤ later)
    (hEnd : extent.offset + extent.size ≤ later) : SameFrom left right later extents := by
  intro place hPlace hNone
  refine h place (Nat.le_trans hFrom hPlace) (List.forall_mem_cons.mpr ⟨?_, hNone⟩)
  omega

/-- In front of the later units only the first one can have changed. -/
theorem head {stop place : Nat} (h : SameFrom left right offset (extent :: extents))
    (hLaid : Laid later stop extents) (hFrom : offset ≤ place) (hTill : place ≤ later)
    (hUnit : ¬ (extent.offset < place ∧ place < extent.offset + extent.size)) :
    left[place]? = right[place]? := by
  refine h place hFrom (List.forall_mem_cons.mpr ⟨hUnit, fun other hOther => ?_⟩)
  have hStart := (hLaid.within other hOther).1
  omega

theorem drop_eq (h : SameFrom left right offset []) : left.drop offset = right.drop offset :=
  drop_congr fun place hFrom => h place hFrom (by simp)

end SameFrom

/-- A start code right behind another one is a fault. -/
theorem unitsAfterCode_of_empty {data : Bytes} {code : Nat} (offset : Nat)
    (h : StartCode.find? data = some code) (hSize : sizeBefore data code = 0) :
    unitsAfterCode offset data = .stopped (.missingNal offset) := by
  cases data with
  | nil => cases h
  | cons header rest =>
      rw [unitsAfterCode]
      split
      case h_1 hNone => cases h.symm.trans hNone
      case h_2 other hOther =>
        cases h.symm.trans hOther
        dsimp only
        rw [if_pos hSize]

/-- Behind start codes, units are found again if they are closed or have not changed. -/
theorem unitsAfterCode_congr (offset : Nat) (hLength : left.length = right.length)
    (hBytes : SameFrom left right offset (unitsAfterCode offset (left.drop offset)).extents)
    (hUnits : ∀ extent ∈ (unitsAfterCode offset (left.drop offset)).extents,
      Closed right (.ofExtent extent) ∨ Untouched left right extent) :
    unitsAfterCode offset (right.drop offset) = unitsAfterCode offset (left.drop offset) := by
  generalize hPiece : left.drop offset = piece at hBytes hUnits ⊢
  have hSize : (right.drop offset).length = piece.length := by
    rw [← hPiece, List.length_drop, List.length_drop, hLength]
  fun_induction unitsAfterCode offset piece with
  | case1 offset =>
      rw [List.length_eq_zero_iff.mp hSize, unitsAfterCode]
  | case2 offset header rest hNone =>
      have hUnit := hUnits ⟨header, offset, rest.length + 1⟩ List.mem_cons_self
      rw [← List.length_cons, ← hPiece] at hUnit
      have hRight := find?_congr_none hLength (hPiece ▸ hNone) hUnit
      have hHead := headD_drop_congr (hBytes.head (.nil offset offset) (Nat.le_refl _) (Nat.le_refl _)
        fun hIn => Nat.lt_irrefl _ hIn.1)
      rw [hPiece] at hHead
      rw [unitsAfterCode_of_none (List.ne_nil_of_length_eq_add_one hSize) offset hRight, hSize, ← hHead]
      rfl
  | case3 offset header rest code hCode size hNone =>
      rw [← hBytes.drop_eq, hPiece]
      exact unitsAfterCode_of_empty offset hCode hNone
  | case4 offset header rest code hCode size hSome _ ih =>
      have hLaid := laid_unitsAfterCode (offset + code + 3) ((header :: rest).drop (code + 3))
      have hBehind : left.drop (offset + code + 3) = (header :: rest).drop (code + 3) := by
        rw [Nat.add_assoc, ← List.drop_drop, hPiece]
      have hShort : size ≤ code := sizeBefore_le _ _
      obtain ⟨hFound, hBefore⟩ := find?_congr hSome (hPiece ▸ hCode) (by rw [hPiece])
        (fun place hFrom hTill => hBytes.head hLaid (by omega) (by omega) (by simp; omega))
        (hUnits _ List.mem_cons_self)
      have hHead := headD_drop_congr (hBytes.head hLaid (Nat.le_refl _) (by omega)
        fun hIn => Nat.lt_irrefl _ hIn.1)
      rw [hPiece] at hHead
      have hRest := ih hBehind (hBytes.tail (by omega) (by simp; omega))
        (fun extent hExtent => hUnits extent (List.mem_cons_of_mem _ hExtent))
        (by rw [← hBehind, List.length_drop, List.length_drop, hLength])
      rw [unitsAfterCode_of_some (List.ne_nil_of_length_eq_add_one hSize) offset hFound
        (hBefore ▸ hSome), hBefore, ← hHead, List.drop_drop, ← Nat.add_assoc, hRest]
      rfl

theorem unitsByLength_of_fits {size : LengthSize} {data : Bytes} (offset : Nat)
    (hRoom : ¬ isShorter data (size.bytes + 1))
    (hFits : ¬ (bigEndian (data.take size.bytes) = 0 ∨
      isShorter (data.drop size.bytes) (bigEndian (data.take size.bytes)))) :
    unitsByLength size offset data
      = .cons ⟨(data.drop size.bytes).headD 0, offset + size.bytes, bigEndian (data.take size.bytes)⟩
          (unitsByLength size (offset + size.bytes + bigEndian (data.take size.bytes))
            ((data.drop size.bytes).drop (bigEndian (data.take size.bytes)))) := by
  rw [unitsByLength, if_neg hRoom]
  dsimp only
  rw [if_neg hFits]

/-- Behind length fields, units are found again whatever has changed in them. -/
theorem unitsByLength_congr (size : LengthSize) (offset : Nat) (hLength : left.length = right.length)
    (hBytes : SameFrom left right offset (unitsByLength size offset (left.drop offset)).extents) :
    unitsByLength size offset (right.drop offset) = unitsByLength size offset (left.drop offset) := by
  generalize hPiece : left.drop offset = piece at hBytes ⊢
  have hSize : (right.drop offset).length = piece.length := by
    rw [← hPiece, List.length_drop, List.length_drop, hLength]
  fun_induction unitsByLength size offset piece with
  | case1 offset data hShort =>
      rw [isShorter_iff, ← hSize, ← isShorter_iff] at hShort
      rw [unitsByLength, if_pos hShort]
  | case2 offset data hRoom length body hStop =>
      rw [← hBytes.drop_eq, hPiece, unitsByLength, if_neg hRoom]
      dsimp only
      rw [if_pos hStop]
  | case3 offset data hRoom length body hFits ih =>
      have hLaid := laid_unitsByLength size (offset + size.bytes + length) (body.drop length)
      have hFront {place : Nat} (hFrom : offset ≤ place) (hTill : place ≤ offset + size.bytes) :
          left[place]? = right[place]? :=
        hBytes.head hLaid hFrom (by omega) (by simp; omega)
      have hField : (right.drop offset).take size.bytes = data.take size.bytes := by
        rw [← hPiece, Bits.take_drop_congr fun place hFrom hTill => hFront hFrom (by omega)]
      have hBody : ((right.drop offset).drop size.bytes).length = body.length := by
        rw [List.length_drop, hSize]
        exact List.length_drop.symm
      have hHead : ((right.drop offset).drop size.bytes).headD 0 = body.headD 0 := by
        rw [List.drop_drop, ← headD_drop_congr (hFront (Nat.le_add_right _ _) (Nat.le_refl _)),
          ← List.drop_drop, hPiece]
      have hRest := ih (by rw [← List.drop_drop, ← List.drop_drop, hPiece])
        (hBytes.tail (by omega) (Nat.le_refl _))
        (by
          rw [← List.drop_drop, ← List.drop_drop, List.length_drop, hBody]
          exact List.length_drop.symm)
      rw [unitsByLength_of_fits, hField, hHead, List.drop_drop, List.drop_drop, ← Nat.add_assoc, hRest]
      · rwa [isShorter_iff, hSize, ← isShorter_iff]
      · rwa [hField, isShorter_iff, hBody, ← isShorter_iff]

/-- In front of the first unit nothing has changed, so that the first start code is still this one. -/
theorem find?_first_congr {code stop : Nat} {extents : List Extent}
    (hCode : StartCode.find? left = some code) (hLaid : Laid (code + 3) stop extents)
    (hBytes : SameFrom left right 0 extents) : StartCode.find? right = some code := by
  have hFront (place : Nat) (hPlace : place < code + 3) : left[place]? = right[place]? := by
    refine hBytes place (Nat.zero_le _) fun extent hExtent => ?_
    have hStart := (hLaid.within extent hExtent).1
    omega
  have hAt (place : Nat) (hPlace : place ≤ code) : At left place ↔ At right place :=
    at_congr fun index hIndex => hFront _ (by omega)
  obtain ⟨hHere, hFirst⟩ := (StartCode.find?_eq_some_iff _ _).mp hCode
  exact (StartCode.find?_eq_some_iff _ _).mpr ⟨(hAt code (Nat.le_refl _)).mp hHere,
    fun place hLess => (hAt place (Nat.le_of_lt hLess)).not.mp (hFirst place hLess)⟩

/-- Behind either framing, the units of a packet are found again if they are closed or have not changed. -/
theorem layout_congr {framing : Framing} (hLength : left.length = right.length)
    (hBytes : SameFrom left right 0 (layout framing left).extents)
    (hUnits : framing = .annexB → ∀ extent ∈ (layout framing left).extents,
      Closed right (.ofExtent extent) ∨ Untouched left right extent) :
    layout framing right = layout framing left := by
  cases framing with
  | lengthPrefixed size => exact unitsByLength_congr size 0 hLength hBytes
  | annexB =>
      have hUnits := hUnits rfl
      cases hCode : StartCode.find? left with
      | none =>
          have hLeft : layout .annexB left = .done := by rw [layout, hCode]
          rw [hLeft] at hBytes
          have hSame : left = right := hBytes.drop_eq
          rw [hSame]
      | some code =>
          have hLeft : layout .annexB left = unitsAfterCode (code + 3) (left.drop (code + 3)) := by
            rw [layout, hCode]
          rw [hLeft] at hBytes hUnits ⊢
          rw [layout, find?_first_congr hCode (laid_unitsAfterCode _ _) hBytes]
          exact unitsAfterCode_congr (code + 3) hLength (fun place _ => hBytes place (Nat.zero_le _)) hUnits

end Congr

end Cadence.Nal
