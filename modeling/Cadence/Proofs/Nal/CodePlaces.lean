import Cadence.Proofs.Nal.Rescan
import Cadence.Proofs.Nal.Selected

/-!
Where units lie behind start codes, said without a search: each place at which 00 00 01 stands begins a unit,
and the next such place ends it (`unitsBetween`). The scan finds these units; it fails exactly if one of them
is empty (`scan_annexB`).
-/

namespace Cadence.Nal

open StartCode (At)

/-- The bytes 00 00 01 stand at a place. -/
def isCodeAt (data : Bytes) (place : Nat) : Bool :=
  data[place]? = some 0 ∧ data[place + 1]? = some 0 ∧ data[place + 2]? = some 1

/-- All places of the bytes 00 00 01, in order. -/
def codePlaces (data : Bytes) : List Nat :=
  (List.range data.length).filter (isCodeAt data)

/-- Where a unit ends that begins at `start`: where the next start code begins, or one byte before it if a
zero byte stands there that belongs to the unit, or with the data. -/
def stopOf (data : Bytes) (start : Nat) : (next : Option Nat) → Nat
  | none => data.length
  | some next => if start < next ∧ data[next - 1]? = some 0 then next - 1 else next

/-- The units that begin behind start codes at the given places. Behind a start code at the end of the data
there is none. -/
def unitsBetween (data : Bytes) : (places : List Nat) → List Extent
  | [] => []
  | code :: places =>
    let start := code + 3
    if start = data.length then unitsBetween data places
    else ⟨(data[start]?).getD 0, start, stopOf data start places.head? - start⟩ ::
      unitsBetween data places

/-- The units of data with start codes. Some may be empty. -/
def unitsOf (data : Bytes) : List Extent :=
  unitsBetween data (codePlaces data)

section Places

variable {data : Bytes} {offset code : Nat}

/-- Whether a start code stands at a place can be computed. -/
theorem isCodeAt_iff (data : Bytes) (place : Nat) : isCodeAt data place = true ↔ At data place := by
  rw [isCodeAt, decide_eq_true_iff, StartCode.at_iff]

/-- The places of start codes from an offset on. -/
def placesFrom (data : Bytes) (offset : Nat) : List Nat :=
  (List.range' offset (data.length - offset)).filter (isCodeAt data)

theorem placesFrom_zero (data : Bytes) : placesFrom data 0 = codePlaces data := by
  rw [placesFrom, codePlaces, List.range_eq_range', Nat.sub_zero]

theorem placesFrom_of_none (h : StartCode.find? (data.drop offset) = none) : placesFrom data offset = [] := by
  rw [placesFrom, List.filter_eq_nil_iff]
  intro place hPlace
  obtain ⟨index, rfl⟩ := Nat.exists_eq_add_of_le (List.mem_range'_1.mp hPlace).1
  rw [isCodeAt_iff, ← StartCode.at_drop]
  exact (StartCode.find?_eq_none_iff_not_at _).mp h index

/-- Where there is no start code, none is passed over. -/
theorem placesFrom_add (h : ∀ place, offset ≤ place → place < offset + code → ¬ At data place)
    (hCode : offset + code ≤ data.length) : placesFrom data offset = placesFrom data (offset + code) := by
  have hSplit : List.range' offset (data.length - offset)
      = List.range' offset code ++ List.range' (offset + code) (data.length - (offset + code)) := by
    have hLength : data.length - offset = code + (data.length - (offset + code)) := by omega
    rw [hLength, ← List.range'_append_1]
  rw [placesFrom, hSplit, List.filter_append, List.filter_eq_nil_iff.mpr, List.nil_append, placesFrom]
  intro place hPlace
  obtain ⟨hFrom, hTill⟩ := List.mem_range'_1.mp hPlace
  rw [isCodeAt_iff]
  exact h place hFrom hTill

theorem add_three_le_of_at {place : Nat} (h : At data place) : place + 3 ≤ data.length :=
  (List.getElem?_eq_some_iff.mp ((StartCode.at_iff _ _).mp h).2.2).1

/-- Start codes do not overlap. -/
theorem placesFrom_of_at (h : At data offset) :
    placesFrom data offset = offset :: placesFrom data (offset + 3) := by
  have hRoom := add_three_le_of_at h
  obtain ⟨_, hSecond, hThird⟩ := (StartCode.at_iff _ _).mp h
  have hFirst : placesFrom data offset = offset :: placesFrom data (offset + 1) := by
    have hLength : data.length - offset = data.length - (offset + 1) + 1 := by omega
    rw [placesFrom, hLength, List.range'_succ, List.filter_cons_of_pos ((isCodeAt_iff _ _).mpr h), placesFrom]
  rw [hFirst, @placesFrom_add data (offset + 1) 2 _ hRoom]
  intro place hFrom hTill hAt
  obtain ⟨hZero, hNext, _⟩ := (StartCode.at_iff _ _).mp hAt
  obtain rfl | rfl : place = offset + 1 ∨ place = offset + 2 := by omega
  · cases hNext.symm.trans hThird
  · cases hZero.symm.trans hThird

/-- The places of start codes from an offset on are the first one found, and those behind it. -/
theorem placesFrom_of_some (h : StartCode.find? (data.drop offset) = some code) :
    placesFrom data offset = (offset + code) :: placesFrom data (offset + code + 3) := by
  obtain ⟨hAt, hFirst⟩ := (StartCode.find?_eq_some_iff _ _).mp h
  rw [StartCode.at_drop] at hAt
  rw [placesFrom_add _ (Nat.le_of_add_right_le (add_three_le_of_at hAt)), placesFrom_of_at hAt]
  intro place hFrom hTill
  obtain ⟨index, rfl⟩ := Nat.exists_eq_add_of_le hFrom
  rw [← StartCode.at_drop]
  exact hFirst index (by omega)

end Places

section Units

variable {data : Bytes}

/-- Units up to the first one that is empty. -/
def located : List Extent → Layout
  | [] => .done
  | unit :: units => if unit.size = 0 then .stopped (.missingNal unit.offset) else .cons unit (located units)

theorem stopOf_some (data : Bytes) (offset code : Nat) :
    stopOf data offset (some (offset + code)) = offset + sizeBefore (data.drop offset) code := by
  unfold stopOf sizeBefore
  rcases Nat.eq_zero_or_pos code with rfl | hCode
  · simp
  · have hNext : offset < offset + code := Nat.lt_add_of_pos_right hCode
    rw [List.getElem?_drop, ← Nat.add_sub_assoc hCode]
    simp only [hNext, hCode, true_and]
    split
    · exact Nat.add_sub_assoc hCode offset
    · rfl

/-- The unit behind a start code goes up to the next one, or to the end of the data. -/
theorem unitsBetween_cons {start : Nat} {header : UInt8} {rest : Bytes}
    (h : data.drop start = header :: rest) {code : Nat} (hCode : code + 3 = start) (places : List Nat) :
    unitsBetween data (code :: places)
      = ⟨header, start, stopOf data start places.head? - start⟩ :: unitsBetween data places := by
  have hHeader : data[start]? = some header := by
    rw [← Nat.add_zero start, ← List.getElem?_drop, h]
    rfl
  obtain ⟨hLess, _⟩ := List.getElem?_eq_some_iff.mp hHeader
  rw [unitsBetween, hCode, if_neg (Nat.ne_of_lt hLess), hHeader, Option.getD_some]

/-- Behind a start code, the search locates the units that begin there, up to the first empty one. -/
theorem unitsAfterCode_eq_located {start : Nat} (hStart : start ≤ data.length) :
    ∀ code, code + 3 = start → unitsAfterCode start (data.drop start)
      = located (unitsBetween data (code :: placesFrom data start)) := by
  generalize hPiece : data.drop start = piece
  fun_induction unitsAfterCode start piece with
  | case1 start =>
      intro code hCode
      have hEnd : start = data.length := Nat.le_antisymm hStart (List.drop_eq_nil_iff.mp hPiece)
      have hNone : placesFrom data start = [] := by
        rw [placesFrom, hEnd, Nat.sub_self]
        rfl
      rw [hNone, unitsBetween, hCode, if_pos hEnd, unitsBetween, located]
  | case2 start header rest hNone =>
      intro code hCode
      have hLength : data.length = start + (rest.length + 1) := by
        rw [← List.length_cons, ← hPiece, List.length_drop]
        omega
      rw [placesFrom_of_none (hPiece ▸ hNone), unitsBetween_cons hPiece hCode, List.head?_nil, stopOf,
        hLength, Nat.add_sub_cancel_left, located, if_neg (Nat.succ_ne_zero _), unitsBetween, located]
  | case3 start header rest next hNext size hSize =>
      intro code hCode
      rw [placesFrom_of_some (hPiece ▸ hNext), unitsBetween_cons hPiece hCode, List.head?_cons,
        stopOf_some, hPiece, Nat.add_sub_cancel_left, located, if_pos hSize]
  | case4 start header rest next hNext size hSize _ ih =>
      intro code hCode
      have hFound : StartCode.find? (data.drop start) = some next := hPiece ▸ hNext
      have hAt := ((StartCode.find?_eq_some_iff _ _).mp hFound).1
      rw [StartCode.at_drop] at hAt
      have hBehind : data.drop (start + next + 3) = (header :: rest).drop (next + 3) := by
        rw [Nat.add_assoc, ← List.drop_drop, hPiece]
      rw [placesFrom_of_some hFound, unitsBetween_cons hPiece hCode, List.head?_cons,
        stopOf_some, hPiece, Nat.add_sub_cancel_left, located, if_neg hSize,
        ih (add_three_le_of_at hAt) hBehind _ rfl]

/-- The search lays out the units that lie between the places of start codes. -/
theorem layout_eq_located (data : Bytes) : layout .annexB data = located (unitsOf data) := by
  rw [layout, unitsOf, ← placesFrom_zero]
  cases hCode : StartCode.find? data with
  | none => rw [@placesFrom_of_none data 0 hCode, unitsBetween, located]
  | some code =>
      have hAt := ((StartCode.find?_eq_some_iff _ _).mp hCode).1
      have hPlaces := @placesFrom_of_some data 0 code hCode
      rw [Nat.zero_add] at hPlaces
      rw [hPlaces]
      exact unitsAfterCode_eq_located (add_three_le_of_at hAt) code rfl

/-- Without an empty unit all of them are laid out. -/
theorem located_of_ne_zero {units : List Extent} (h : ∀ unit ∈ units, unit.size ≠ 0) :
    located units = ⟨units, none⟩ := by
  induction units with
  | nil => rfl
  | cons unit units ih =>
      obtain ⟨hUnit, hUnits⟩ := List.forall_mem_cons.mp h
      rw [located, if_neg hUnit, ih hUnits]
      rfl

/-- An empty unit is a fault, and only units in front of it are laid out. -/
theorem exists_located_of_zero {units : List Extent} (h : ∃ unit ∈ units, unit.size = 0) :
    ∃ front fault, front.length ≤ units.length ∧ located units = ⟨front, some fault⟩ := by
  induction units with
  | nil => simp at h
  | cons unit units ih =>
      by_cases hUnit : unit.size = 0
      · exact ⟨[], .missingNal unit.offset, Nat.zero_le _, by rw [located, if_pos hUnit]; rfl⟩
      · obtain ⟨front, fault, hLength, hUnits⟩ := ih (by simpa [hUnit] using h)
        refine ⟨unit :: front, fault, Nat.succ_le_succ hLength, ?_⟩
        rw [located, if_neg hUnit, hUnits]
        rfl

/-- Of data with start codes that has at most 128 units, those units are reported whose forbidden bit is
clear, unless one of them is empty: exactly then the data is found to be damaged. -/
theorem scan_annexB {data : Bytes} (h : (unitsOf data).length ≤ 128) :
    ((∃ fault, scan .annexB data = .error fault ∧ fault.category = .invalidData) ↔
      ∃ unit ∈ unitsOf data, unit.size = 0) ∧
    ((∀ unit ∈ unitsOf data, unit.size ≠ 0) →
      scan .annexB data = .ok ⟨reportable (unitsOf data), false⟩) := by
  have hWhole (hSizes : ∀ unit ∈ unitsOf data, unit.size ≠ 0) :
      scan .annexB data = .ok ⟨reportable (unitsOf data), false⟩ := by
    rw [scan, layout_eq_located, located_of_ne_zero hSizes]
    exact select_of_length_le h none
  refine ⟨⟨fun hFails => ?_, fun hEmpty => ?_⟩, hWhole⟩
  · obtain ⟨fault, hFault, _⟩ := hFails
    by_contra hNone
    have hScan := hWhole fun unit hUnit hSize => hNone ⟨unit, hUnit, hSize⟩
    cases hFault.symm.trans hScan
  · obtain ⟨front, fault, hLength, hLocated⟩ := exists_located_of_zero hEmpty
    have hScan : scan .annexB data = .error fault := by
      rw [scan, layout_eq_located, hLocated]
      exact select_of_length_le (Nat.le_trans hLength h) (some fault)
    exact ⟨fault, hScan, category_of_scan hScan⟩

/-- Bytes in front, zero bytes in excess, a unit that ends with two zero bytes, a unit with the forbidden
bit, a unit of one byte, and a start code at the end. -/
def sampleScattered : Bytes :=
  [0xab, 0, 0, 0, 0, 1, 0x41, 0x9a, 0, 0, 0, 0, 1, 0xc1, 0x11, 0, 0, 1, 0x09, 0, 0, 1]

/-- A zero byte alone between two start codes makes no unit. -/
def sampleZeroBetween : Bytes :=
  [0, 0, 1, 0x41, 0x9a, 0, 0, 1, 0, 0, 0, 1, 0x41]

/-- The scattered units are reported but for the one with the forbidden bit, and a zero byte alone
between two start codes makes the packet fail. -/
theorem scan_annexB_sampleScattered :
    (unitsOf sampleScattered).length ≤ 128 ∧ (∀ unit ∈ unitsOf sampleScattered, unit.size ≠ 0) ∧
      scan .annexB sampleScattered = .ok ⟨[⟨.slice, 2, 6, 3⟩, ⟨.delimiter, 0, 18, 1⟩], false⟩ ∧
      (unitsOf sampleZeroBetween).length ≤ 128 ∧ (∃ unit ∈ unitsOf sampleZeroBetween, unit.size = 0) ∧
      ∃ fault, scan .annexB sampleZeroBetween = .error fault ∧ fault.category = .invalidData := by
  have hFew : (unitsOf sampleScattered).length ≤ 128 := by decide
  have hSizes : ∀ unit ∈ unitsOf sampleScattered, unit.size ≠ 0 := by decide
  have hFewBetween : (unitsOf sampleZeroBetween).length ≤ 128 := by decide
  have hEmpty : ∃ unit ∈ unitsOf sampleZeroBetween, unit.size = 0 := by decide
  exact ⟨hFew, hSizes, (scan_annexB hFew).2 hSizes, hFewBetween, hEmpty,
    (scan_annexB hFewBetween).1.mpr hEmpty⟩

end Units

end Cadence.Nal
