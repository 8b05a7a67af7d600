import Cadence.Proofs.Machine.StartCodes
import Cadence.Proofs.Nal.Rescan

/-!
The units of a packet on a machine: one loop for each framing, which reports units as it comes to them.
However damaged the packet is, every byte that is looked at lies in it, and what is reported is what the
scan of the packet reports (`scanUnits_eq`).
-/

namespace Cadence.Machine

open Nal

/-- Reports one more unit, if there is room for it. -/
def report (data : Bytes) (spans : List Span) (offset size : Nat) : Machine (Option (List Span)) := do
  if maxUnits ≤ spans.length then return none
  let header ← index data offset
  if isForbidden header then return some spans
  return some (spans ++ [.ofExtent ⟨header, offset, size⟩])

/-- Reports a unit, and goes on behind it unless it is left out. -/
def reportThen (data : Bytes) (spans : List Span) (offset size behind : Nat) :
    Machine ((Nat × List Span) ⊕ List Span) := do
  match ← report data spans offset size with
  | none => return .inr spans
  | some spans => return .inl (behind, spans)

def zeroRound (data : Bytes) (place : Nat) : Machine (Nat ⊕ Nat) := do
  if place < data.length then
    if (← index data place) = 0 then return .inl (← add 64 place 1)
  return .inr place

/-- Goes over a start code, and over the zero bytes in front of it. -/
def skipStartCode (data : Bytes) (place : Nat) : Machine Nat := do
  add 64 (← loop (zeroRound data) (data.length + 1) place) 1

/-- One unit behind a start code. -/
def codeRound (data : Bytes) : Nat × List Span → Machine ((Nat × List Span) ⊕ List Span)
  | (place, spans) => do
    let start ← skipStartCode data place
    if data.length ≤ start then return .inr spans
    let behind ← findStartCode data start
    if behind = start then ofExcept (.error (.missingNal start))
    reportThen data spans start (← sub behind start) behind

/-- One unit behind a length field. -/
def lengthRound (size : LengthSize) (data : Bytes) :
    Nat × List Span → Machine ((Nat × List Span) ⊕ List Span)
  | (place, spans) => do
    if (← sub data.length place) ≤ size.bytes then return .inr spans
    let start ← add 64 place size.bytes
    let field ← slice data place start
    assert (0 < size.bytes ∧ size.bytes ≤ 8 ∧ size.bytes ≤ field.length)
    let length ← fit 64 (bigEndian field)
    let remaining ← sub data.length start
    if length = 0 ∨ remaining < length then ofExcept (.error (.nalLength length remaining))
    reportThen data spans start length (← add 64 start length)

def scanUnits (framing : Framing) (data : Bytes) : Machine (List Span) :=
  match framing with
  | .annexB => do
    loop (codeRound data) (data.length + 1) (← findStartCode data 0, [])
  | .lengthPrefixed size => loop (lengthRound size data) (data.length + 1) (0, [])

/-- What is reported when the units of a layout come behind others. -/
def reported (spans : List Span) (layout : Layout) : Except Fault (List Span) :=
  (select (maxUnits - spans.length) layout.extents layout.fault).map fun scan => spans ++ scan.spans

section Report

variable {data : Bytes} {spans : List Span} {extent : Extent} {layout : Layout}

theorem reported_done (spans : List Span) : reported spans .done = .ok spans := by
  simp [reported, Layout.done, select, Except.map]

theorem reported_stopped (spans : List Span) (fault : Fault) :
    reported spans (.stopped fault) = .error fault := by
  simp [reported, Layout.stopped, select, Except.map]

/-- A unit is reported, passed over, or the first one that is left out. -/
theorem report_eq (hHeader : index data extent.offset = .ok extent.header)
    (hSpans : spans.length ≤ maxUnits) (layout : Layout) :
    (report data spans extent.offset extent.size = .ok none ∧
        reported spans (.cons extent layout) = .ok spans) ∨
      ∃ next, report data spans extent.offset extent.size = .ok (some next) ∧
        next.length ≤ maxUnits ∧ reported next layout = reported spans (.cons extent layout) := by
  by_cases hFull : maxUnits ≤ spans.length
  · refine .inl ⟨by rw [report, if_pos hFull]; rfl, ?_⟩
    simp [reported, Layout.cons, Nat.sub_eq_zero_of_le hFull, select, Except.map]
  · obtain ⟨room, hRoom⟩ : ∃ room, maxUnits - spans.length = room + 1 :=
      ⟨maxUnits - spans.length - 1, by omega⟩
    right
    rw [report, if_neg hFull, hHeader, ok_bind]
    by_cases hForbidden : isForbidden extent.header
    · refine ⟨spans, by rw [if_pos hForbidden]; rfl, hSpans, ?_⟩
      simp only [reported, Layout.cons, hRoom, select, hForbidden, if_true]
    · refine ⟨spans ++ [.ofExtent extent], by rw [if_neg hForbidden]; rfl, ?_, ?_⟩
      · rw [List.length_append, List.length_singleton]
        omega
      · have hLess : maxUnits - (spans.length + 1) = room := by omega
        simp only [reported, Layout.cons, hRoom, select, hForbidden, List.length_append,
          List.length_singleton, hLess]
        cases select room layout.extents layout.fault with
        | error fault => rfl
        | ok scan => simp [Except.map, bind, Except.bind, pure, Except.pure]

/-- Where the search stands, and what has been reported. -/
def Scanning (data : Bytes) (state : Nat × List Span) : Prop :=
  state.1 ≤ data.length ∧ state.2.length ≤ maxUnits

/-- A round of the search, where `units` is the layout from a place on. -/
abbrev ScanRounds (data : Bytes) (round : Nat × List Span → Machine ((Nat × List Span) ⊕ List Span))
    (units : Nat → Layout) (state : Nat × List Span) : Prop :=
  Rounds round (Scanning data) (fun state => data.length - state.1)
    (fun state => ofExcept (reported state.2 (units state.1))) state

variable {round : Nat × List Span → Machine ((Nat × List Span) ⊕ List Span)} {units : Nat → Layout}
  {place behind : Nat}

/-- At the end of the units the loop returns what it has collected. -/
theorem rounds_of_done (h : units place = .done) (hRound : round (place, spans) = .ok (.inr spans)) :
    ScanRounds data round units (place, spans) := by
  refine .done hRound ?_
  dsimp only
  rw [h, reported_done]
  rfl

/-- At a damaged unit the loop ends with its fault. -/
theorem rounds_of_stopped {fault : Fault} (h : units place = .stopped fault)
    (hRound : round (place, spans) = .error (.fault fault)) :
    ScanRounds data round units (place, spans) := by
  refine .failed hRound ?_
  dsimp only
  rw [h, reported_stopped]
  rfl

/-- A whole unit is one round of the loop, which goes on behind it. -/
theorem rounds_of_cons (h : units place = .cons extent (units behind))
    (hRound : round (place, spans) = reportThen data spans extent.offset extent.size behind)
    (hHeader : index data extent.offset = .ok extent.header) (hSpans : spans.length ≤ maxUnits)
    (hPlace : place < behind) (hBehind : behind ≤ data.length) :
    ScanRounds data round units (place, spans) := by
  rcases report_eq hHeader hSpans (units behind) with ⟨hNone, hValue⟩ | ⟨next, hNext, hLess, hValue⟩
  · have hEnd : round (place, spans) = .ok (.inr spans) := by
      rw [hRound, reportThen, hNone]
      rfl
    refine .done hEnd ?_
    dsimp only
    rw [h, hValue]
    rfl
  · have hStep : round (place, spans) = .ok (.inl (behind, next)) := by
      rw [hRound, reportThen, hNext]
      rfl
    refine .next hStep ⟨hBehind, hLess⟩ ?_ ?_
    · show data.length - behind < data.length - place
      omega
    · dsimp only
      rw [h, hValue]

end Report

section StartCodes

variable {data : Bytes} {place : Nat}

/-- The first place from a given one on at which the data is not zero. -/
def behindZeros (data : Bytes) (place : Nat) : Nat :=
  place + ((data.drop place).takeWhile (· == 0)).length

/-- Zeros end with the data at the latest. -/
theorem behindZeros_le (hPlace : place ≤ data.length) : behindZeros data place ≤ data.length := by
  have hZeros := (List.takeWhile_prefix (· == 0) (l := data.drop place)).length_le
  rw [List.length_drop] at hZeros
  rw [behindZeros]
  omega

theorem behindZeros_of_zero {rest : Bytes} (h : data.drop place = 0 :: rest) :
    behindZeros data place = behindZeros data (place + 1) := by
  rw [behindZeros, behindZeros, drop_succ_of_drop h, h, List.takeWhile_cons_of_pos (by decide),
    List.length_cons]
  omega

theorem behindZeros_of_ne_zero {byte : UInt8} {rest : Bytes} (h : data.drop place = byte :: rest)
    (hByte : byte ≠ 0) : behindZeros data place = place := by
  rw [behindZeros, h, List.takeWhile_cons_of_neg (by simpa using hByte)]
  rfl

theorem behindZeros_length (data : Bytes) : behindZeros data data.length = data.length := by
  simp [behindZeros]

/-- Byte by byte the loop passes over the zeros, by induction over the bytes that are left. -/
theorem rounds_zeroRound (hSize : data.length < 2 ^ 63) (hPlace : place ≤ data.length) :
    Rounds (zeroRound data) (· ≤ data.length) (data.length - ·)
      (fun place => .ok (behindZeros data place)) place := by
  rcases Nat.lt_or_eq_of_le hPlace with hRoom | rfl
  · obtain ⟨byte, hDrop⟩ := exists_drop_eq_cons hRoom
    by_cases hByte : byte = 0
    · subst hByte
      have hRound : zeroRound data place = .ok (.inl (place + 1)) := by
        rw [zeroRound, if_pos hRoom, index_of_drop hDrop, ok_bind, if_pos rfl, add_of_lt (by omega)]
        rfl
      refine .next hRound hRoom ?_ (by simp only [behindZeros_of_zero hDrop])
      show data.length - (place + 1) < data.length - place
      omega
    · have hRound : zeroRound data place = .ok (.inr place) := by
        rw [zeroRound, if_pos hRoom, index_of_drop hDrop, ok_bind, if_neg hByte]
        rfl
      exact .done hRound (by rw [behindZeros_of_ne_zero hDrop hByte])
  · have hRound : zeroRound data data.length = .ok (.inr data.length) := by
      rw [zeroRound, if_neg (Nat.lt_irrefl _)]
      rfl
    exact .done hRound (by rw [behindZeros_length])

/-- Behind the zeros of a start code its last byte is passed over too. -/
theorem skipStartCode_eq (hSize : data.length < 2 ^ 63) (hPlace : place ≤ data.length) :
    skipStartCode data place = .ok (behindZeros data place + 1) := by
  have hZeros : loop (zeroRound data) (data.length + 1) place = .ok (behindZeros data place) :=
    loop_eq (fun place hPlace => rounds_zeroRound hSize hPlace) hPlace (by omega)
  have := behindZeros_le hPlace
  rw [skipStartCode, hZeros, ok_bind, add_of_lt (by omega)]

/-- A start code that is found begins with two zero bytes, and the unit begins behind the byte after
them. -/
theorem behindZeros_of_code {code : Nat} (h : StartCode.find? (data.drop place) = some code) :
    behindZeros data (place + sizeBefore (data.drop place) code) = place + code + 2 := by
  obtain ⟨hAt, _⟩ := (StartCode.find?_eq_some_iff _ _).mp h
  rw [StartCode.at_drop] at hAt
  obtain ⟨rest, hCode⟩ := (StartCode.startsHere_iff_short _).mp hAt
  have hDrop : data.drop (place + code) = 0 :: 0 :: 1 :: rest := hCode.symm
  have hSecond := drop_succ_of_drop hDrop
  have hThird := drop_succ_of_drop hSecond
  have hZeros : behindZeros data (place + code) = place + code + 2 := by
    rw [behindZeros_of_zero hDrop, behindZeros_of_zero hSecond,
      behindZeros_of_ne_zero hThird (by decide)]
  unfold sizeBefore
  split
  case isTrue hBefore =>
    obtain ⟨hSome, hByte⟩ := hBefore
    have hBehind : place + (code - 1) + 1 = place + code := by omega
    have hZero : data.drop (place + (code - 1)) = 0 :: data.drop (place + code) := by
      rw [List.getElem?_drop] at hByte
      obtain ⟨hLess, hByte⟩ := List.getElem?_eq_some_iff.mp hByte
      rw [List.drop_eq_getElem_cons hLess, hByte, hBehind]
    rw [behindZeros_of_zero hZero, hBehind, hZeros]
  case isFalse => exact hZeros

/-- The units behind the start code at a place. -/
def unitsFrom (data : Bytes) (place : Nat) : Layout :=
  unitsAfterCode (behindZeros data place + 1) (data.drop (behindZeros data place + 1))

/-- Where nothing is left behind a start code there are no more units. -/
theorem unitsFrom_of_end (h : data.length ≤ behindZeros data place + 1) :
    unitsFrom data place = .done := by
  rw [unitsFrom, List.drop_of_length_le h, unitsAfterCode]

theorem stopBefore_mem (hPlace : place ≤ data.length) :
    place ≤ stopBefore data place ∧ stopBefore data place ≤ data.length := by
  unfold stopBefore
  split
  case h_1 => exact ⟨hPlace, Nat.le_refl _⟩
  case h_2 code hCode =>
    have hLess := StartCode.find?_lt hCode
    have hSize := sizeBefore_le (data.drop place) code
    rw [List.length_drop] at hLess
    omega

/-- The first unit behind a start code ends where the next start code begins. -/
theorem unitsAfterCode_eq {header : UInt8} {rest : Bytes} (hDrop : data.drop place = header :: rest)
    (hPlace : place < data.length) :
    unitsAfterCode place (data.drop place)
      = if stopBefore data place = place then .stopped (.missingNal place)
        else .cons ⟨header, place, stopBefore data place - place⟩
          (unitsFrom data (stopBefore data place)) := by
  have hLength := length_of_drop hDrop (Nat.le_of_lt hPlace)
  rw [List.length_cons] at hLength
  rw [hDrop, unitsAfterCode]
  split
  case h_1 hNone =>
    have hStop : stopBefore data place = data.length := by rw [stopBefore, hDrop, hNone]
    have hSize : rest.length + 1 = data.length - place := by omega
    rw [hStop, if_neg (by omega), unitsFrom_of_end (by rw [behindZeros_length]; omega), hSize]
  case h_2 code hCode =>
    have hStop : stopBefore data place = place + sizeBefore (header :: rest) code := by
      rw [stopBefore, hDrop, hCode]
    have hBehind := behindZeros_of_code (hDrop.symm ▸ hCode)
    rw [hDrop] at hBehind
    rw [hStop, Nat.add_sub_cancel_left]
    by_cases hNone : sizeBefore (header :: rest) code = 0
    · rw [if_pos hNone, if_pos (by omega)]
    · rw [if_neg hNone, if_neg (by omega), unitsFrom, hBehind, ← hDrop, List.drop_drop]
      rfl

/-- From one start code to the next the loop reports a unit, by induction over the units that are
left. -/
theorem rounds_codeRound (hSize : data.length < 2 ^ 63) {state : Nat × List Span}
    (h : Scanning data state) : ScanRounds data (codeRound data) (unitsFrom data) state := by
  obtain ⟨place, spans⟩ := state
  obtain ⟨hPlace, hSpans⟩ : place ≤ data.length ∧ spans.length ≤ maxUnits := h
  have hFrom : place ≤ behindZeros data place := Nat.le_add_right _ _
  have hSkip := skipStartCode_eq hSize hPlace
  have hUnits : unitsFrom data place
      = unitsAfterCode (behindZeros data place + 1) (data.drop (behindZeros data place + 1)) := rfl
  by_cases hEnd : data.length ≤ behindZeros data place + 1
  · refine rounds_of_done (unitsFrom_of_end hEnd) ?_
    rw [codeRound, hSkip, ok_bind, if_pos hEnd]
    rfl
  · obtain ⟨header, hDrop⟩ := @exists_drop_eq_cons data (behindZeros data place + 1) (by omega)
    generalize hStart : behindZeros data place + 1 = start at *
    obtain ⟨hLow, hHigh⟩ := @stopBefore_mem data start (by omega)
    rw [unitsAfterCode_eq hDrop (by omega)] at hUnits
    have hRound : codeRound data (place, spans) = (do
        if stopBefore data start = start then ofExcept (.error (.missingNal start))
        reportThen data spans start (stopBefore data start - start) (stopBefore data start)) := by
      rw [codeRound, hSkip, ok_bind, if_neg hEnd, findStartCode_eq hSize (by omega), ok_bind,
        sub_of_le hLow]
      rfl
    by_cases hNone : stopBefore data start = start
    · rw [if_pos hNone] at hUnits
      exact rounds_of_stopped hUnits (by rw [hRound, if_pos hNone]; rfl)
    · rw [if_neg hNone] at hUnits
      exact rounds_of_cons hUnits (by rw [hRound, if_neg hNone]) (index_of_drop hDrop) hSpans
        (by omega) hHigh

end StartCodes

section LengthFields

variable {size : LengthSize} {data : Bytes} {place : Nat}

/-- The length field at a place. -/
def lengthAt (size : LengthSize) (data : Bytes) (place : Nat) : Nat :=
  bigEndian ((data.drop place).take size.bytes)

theorem lengthAt_lt (size : LengthSize) (data : Bytes) (place : Nat) :
    lengthAt size data place < 2 ^ 64 := by
  have hBytes : ((data.drop place).take size.bytes).length ≤ 4 :=
    Nat.le_trans (List.length_take_le _ _) size.le_four
  calc lengthAt size data place < 256 ^ ((data.drop place).take size.bytes).length :=
        bigEndian_lt _
    _ ≤ 256 ^ 4 := Nat.pow_le_pow_right (by decide) hBytes
    _ ≤ 2 ^ 64 := by decide

/-- The unit behind a length field, if the field is in order. -/
theorem unitsByLength_eq {header : UInt8} (h : ¬ data.length - place ≤ size.bytes)
    (hHeader : data.drop (place + size.bytes) = header :: data.drop (place + size.bytes + 1)) :
    unitsByLength size place (data.drop place)
      = if lengthAt size data place = 0 ∨
            data.length - (place + size.bytes) < lengthAt size data place then
          .stopped (.nalLength (lengthAt size data place) (data.length - (place + size.bytes)))
        else
          .cons ⟨header, place + size.bytes, lengthAt size data place⟩
            (unitsByLength size (place + size.bytes + lengthAt size data place)
              (data.drop (place + size.bytes + lengthAt size data place))) := by
  have hRoom : ¬ isShorter (data.drop place) (size.bytes + 1) = true := by
    rw [isShorter_iff, List.length_drop]
    omega
  have hHead : (data.drop (place + size.bytes)).headD 0 = header := by rw [hHeader]; rfl
  have hShort : (isShorter (data.drop (place + size.bytes)) (lengthAt size data place) = true)
      = (data.length - (place + size.bytes) < lengthAt size data place) := by
    rw [isShorter_iff, List.length_drop]
  rw [unitsByLength, if_neg hRoom]
  dsimp only
  rw [← lengthAt, List.drop_drop, List.drop_drop, List.length_drop, hHead]
  exact ite_congr (congrArg (_ ∨ ·) hShort) (fun _ => rfl) fun _ => rfl

/-- One unit after another behind length fields. -/
theorem rounds_lengthRound (hSize : data.length < 2 ^ 63) {state : Nat × List Span}
    (h : Scanning data state) :
    ScanRounds data (lengthRound size data) (fun place => unitsByLength size place (data.drop place))
      state := by
  obtain ⟨place, spans⟩ := state
  obtain ⟨hPlace, hSpans⟩ : place ≤ data.length ∧ spans.length ≤ maxUnits := h
  by_cases hEnd : data.length - place ≤ size.bytes
  · refine rounds_of_done (unitsByLength_of_le (by rwa [List.length_drop]) place) ?_
    rw [lengthRound, sub_of_le hPlace, ok_bind, if_pos hEnd]
    rfl
  · obtain ⟨header, hDrop⟩ := @exists_drop_eq_cons data (place + size.bytes) (by omega)
    have hUnits := unitsByLength_eq hEnd hDrop
    have hFour := size.le_four
    have hField : slice data place (place + size.bytes)
        = .ok ((data.drop place).take size.bytes) := by
      rw [slice_of_le (by omega) (by omega), Nat.add_sub_cancel_left]
    have hRead : 0 < size.bytes ∧ size.bytes ≤ 8 ∧
        size.bytes ≤ ((data.drop place).take size.bytes).length := by
      have hPos := size.pos
      rw [List.length_take, List.length_drop]
      omega
    have hRound : lengthRound size data (place, spans) = (do
        if lengthAt size data place = 0 ∨
            data.length - (place + size.bytes) < lengthAt size data place then
          ofExcept (.error (.nalLength (lengthAt size data place)
            (data.length - (place + size.bytes))))
        let behind ← add 64 (place + size.bytes) (lengthAt size data place)
        reportThen data spans (place + size.bytes) (lengthAt size data place) behind) := by
      rw [lengthRound, sub_of_le hPlace, ok_bind, if_neg hEnd, add_of_lt (by omega), ok_bind, hField,
        ok_bind, assert_of hRead, ok_bind, ← lengthAt, fit_of_lt (lengthAt_lt size data place), ok_bind,
        sub_of_le (by omega), ok_bind]
    by_cases hWrong : lengthAt size data place = 0 ∨
        data.length - (place + size.bytes) < lengthAt size data place
    · rw [if_pos hWrong] at hUnits
      exact rounds_of_stopped hUnits (by rw [hRound, if_pos hWrong]; rfl)
    · rw [if_neg hWrong] at hUnits
      refine rounds_of_cons hUnits ?_ (index_of_drop hDrop) hSpans ?_ ?_
      · rw [hRound, if_neg hWrong, add_of_lt (by omega)]
        rfl
      · omega
      · omega

end LengthFields

/-- The units of a packet are those that the scan of the packet reports. -/
theorem scanUnits_eq (framing : Framing) {data : Bytes} (hSize : data.length < 2 ^ 63) :
    scanUnits framing data = ofExcept ((scan framing data).map Scan.spans) := by
  have hReported (layout : Layout) : reported [] layout
      = (select maxUnits layout.extents layout.fault).map Scan.spans := rfl
  cases framing with
  | annexB =>
      have hStop := @findStartCode_eq data 0 hSize (Nat.zero_le _)
      obtain ⟨_, hWithin⟩ := @stopBefore_mem data 0 (Nat.zero_le _)
      have hUnits : unitsFrom data (stopBefore data 0) = layout .annexB data := by
        rw [layout, stopBefore, List.drop_zero]
        cases hCode : StartCode.find? data with
        | none => exact unitsFrom_of_end (by rw [behindZeros_length]; omega)
        | some code =>
            have hBehind := @behindZeros_of_code data 0 code hCode
            rw [List.drop_zero] at hBehind
            dsimp only
            rw [unitsFrom, hBehind, Nat.zero_add]
      rw [scanUnits, hStop, ok_bind, scan, ← hReported, ← hUnits]
      have hFirst : Scanning data (stopBefore data 0, []) := ⟨hWithin, Nat.zero_le _⟩
      exact loop_eq (fun state hState => rounds_codeRound hSize hState) hFirst
        (by dsimp only; omega)
  | lengthPrefixed size =>
      rw [scanUnits, scan, ← hReported, layout]
      have hFirst : Scanning data (0, []) := ⟨Nat.zero_le _, Nat.zero_le _⟩
      exact loop_eq (fun state hState => rounds_lengthRound hSize hState) hFirst
        (by dsimp only; omega)

end Cadence.Machine
