import Cadence.Proofs.FrameNum.Faults
import Cadence.Proofs.FrameNum.Headers

/-!
Slices that are cut off. Reading a frame number runs out of data exactly if the data is a proper
beginning of a slice header (`ofPayload_eq_endOfData_iff`). Of the slices of a packet the first one that
cannot be read decides what is wrong with the packet, whether its slices are read or renumbered
(`FirstFault`).
-/

namespace Cadence

namespace ParameterSets

/-- The width of frame numbers in slices that name a picture parameter set. Where the set is not known
nothing is read behind its id. -/
def numberWidth (sets : ParameterSets) (ppsId : Nat) : Nat :=
  if ppsId > 255 then 0
  else
    match sets.active ppsId with
    | .ok (_, sps) => sps.log2MaxFrameNum
    | .error _ => 0

end ParameterSets

namespace FrameNum

open BitReader

/-- The bits are a slice header up to the end of the frame number. -/
def Header (sets : ParameterSets) (bits : List Bool) : Prop :=
  ∃ firstMb sliceType ppsId number, firstMb + 1 < 2 ^ 32 ∧ sliceType + 1 < 2 ^ 32 ∧
    ppsId + 1 < 2 ^ 32 ∧ number.length = sets.numberWidth ppsId ∧
    bits = Bits.ue firstMb ++ (Bits.ue sliceType ++ (Bits.ue ppsId ++ number))

/-- The payload of a slice ends before its frame number does. -/
def CutOff (sets : ParameterSets) (payload : Bytes) : Prop :=
  ∃ missing, missing ≠ [] ∧ Header sets (Bits.ofBytes payload ++ missing)

/-- Frame numbers are at most as wide as a field that can be read at once. -/
def Readable (sets : ParameterSets) : Prop :=
  ∀ ppsId pps sps, sets.active ppsId = .ok (pps, sps) → sps.log2MaxFrameNum ≤ 32

/-- A frame number that is cut off ends the reading with the end of the data. -/
theorem stops_readNumber {sets : ParameterSets} (hSets : Readable sets) {ppsId : Nat}
    {number : List Bool} (h : number.length = sets.numberWidth ppsId) :
    Stops (readNumber sets ppsId) number := by
  intro r missing hMissing hNumber
  have hSome : number.length ≠ 0 := by
    rw [← hNumber, List.length_append]
    have := List.length_pos_iff.mpr hMissing
    omega
  unfold ParameterSets.numberWidth at h
  split at h
  case isTrue => exact absurd h hSome
  case isFalse hId =>
    split at h
    case h_1 pps sps hActive =>
      have hWidth := hSets ppsId pps sps hActive
      obtain ⟨s, hRead⟩ := Stops.readBits (h ▸ hWidth) r missing hMissing hNumber
      rw [h] at hRead
      refine ⟨s, ?_⟩
      rw [readNumber, if_neg hId, hActive]
      exact bind_eq_error.mpr (.inr ⟨sps, r, rfl, bind_eq_error.mpr (.inr ⟨r, r, rfl,
        bind_eq_error.mpr (.inl hRead)⟩)⟩)
    case h_2 => exact absurd h hSome

/-- A reader that runs out of data in the number needed more bits for it. -/
theorem exists_missing_of_readNumber {sets : ParameterSets} {ppsId : Nat} {r t : BitReader}
    (h : readNumber sets ppsId r = .error .endOfData t) :
    ∃ missing, missing ≠ [] ∧ (r.rest ++ missing).length = sets.numberWidth ppsId := by
  unfold readNumber at h
  split at h
  case isTrue => cases h
  case isFalse hId =>
    cases hActive : sets.active ppsId with
    | error fault =>
        rw [hActive] at h
        have hFault : fault = .endOfData := by
          cases h
          rfl
        cases hFault ▸ category_of_active hActive
    | ok pair =>
        have hWidth : sets.numberWidth ppsId = pair.2.log2MaxFrameNum := by
          rw [ParameterSets.numberWidth, if_neg hId, hActive]
        rw [hActive] at h
        have hRead : readBits pair.2.log2MaxFrameNum r = .error .endOfData t := by
          obtain ⟨_, _, hSps, h⟩ := (bind_eq_error.mp h).resolve_left (by rintro ⟨⟩)
          cases hSps
          obtain ⟨_, _, hGet, h⟩ := (bind_eq_error.mp h).resolve_left (by rintro ⟨⟩)
          cases hGet
          refine (bind_eq_error.mp h).resolve_right ?_
          rintro ⟨_, _, _, ⟨⟩⟩
        unfold readBits at hRead
        split at hRead
        case isTrue => cases hRead
        case isFalse =>
          split at hRead
          case isTrue hShort =>
            refine ⟨List.replicate (pair.2.log2MaxFrameNum - r.left) false, ?_, ?_⟩
            · rw [← List.length_pos_iff, List.length_replicate]
              omega
            · rw [List.length_append, List.length_replicate, length_rest, hWidth]
              omega
          case isFalse => cases hRead

/-- Where the end of the data is reported, more bits would have made a header. -/
theorem exists_header_of_read {sets : ParameterSets} {r t : BitReader}
    (h : read sets r = .error .endOfData t) :
    ∃ missing, missing ≠ [] ∧ Header sets (r.rest ++ missing) := by
  -- What is missing in the word that the data ends in, and anything for the words behind it.
  have hZero : 0 + 1 < 2 ^ 32 := by decide
  have hNumber (ppsId : Nat) :
      (List.replicate (sets.numberWidth ppsId) false).length = sets.numberWidth ppsId :=
    List.length_replicate
  rw [read_eq] at h
  rcases readUe_bind_endOfData h with ⟨firstMb, missing, hFirst, hMissing, hWord⟩ |
    ⟨firstMb, s, hFirst, hRest, h⟩
  · refine ⟨missing ++ (Bits.ue 0 ++ (Bits.ue 0 ++ List.replicate (sets.numberWidth 0) false)),
      List.append_ne_nil_of_left_ne_nil hMissing _, firstMb, 0, 0, _, hFirst, hZero, hZero,
      hNumber 0, ?_⟩
    rw [← List.append_assoc, hWord]
  rcases readUe_bind_endOfData h with ⟨sliceType, missing, hType, hMissing, hWord⟩ |
    ⟨sliceType, s', hType, hRest', h⟩
  · refine ⟨missing ++ (Bits.ue 0 ++ List.replicate (sets.numberWidth 0) false),
      List.append_ne_nil_of_left_ne_nil hMissing _, firstMb, sliceType, 0, _, hFirst, hType, hZero,
      hNumber 0, ?_⟩
    rw [hRest, List.append_assoc, ← List.append_assoc s.rest, hWord]
  rcases readUe_bind_endOfData h with ⟨ppsId, missing, hId, hMissing, hWord⟩ |
    ⟨ppsId, s'', hId, hRest'', h⟩
  · refine ⟨missing ++ List.replicate (sets.numberWidth ppsId) false,
      List.append_ne_nil_of_left_ne_nil hMissing _, firstMb, sliceType, ppsId, _, hFirst, hType, hId,
      hNumber ppsId, ?_⟩
    rw [hRest, hRest', List.append_assoc, List.append_assoc, ← List.append_assoc s'.rest, hWord]
  · obtain ⟨missing, hMissing, hLength⟩ := exists_missing_of_readNumber h
    refine ⟨missing, hMissing, firstMb, sliceType, ppsId, s''.rest ++ missing, hFirst, hType, hId,
      hLength, ?_⟩
    rw [hRest, hRest', hRest'', List.append_assoc, List.append_assoc, List.append_assoc]

/-- A header that is cut off anywhere ends the reading with the end of the data. -/
theorem stops_read {sets : ParameterSets} (hSets : Readable sets) {header : List Bool}
    (h : Header sets header) : Stops (read sets) header := by
  obtain ⟨firstMb, sliceType, ppsId, number, hFirst, hType, hId, hNumber, rfl⟩ := h
  rw [read_eq]
  exact (Stops.readUe hFirst).bind (.readUe hFirst) ((Stops.readUe hType).bind (.readUe hType)
    ((Stops.readUe hId).bind (.readUe hId) (stops_readNumber hSets hNumber)))

/-- A slice that cannot be read is damaged, or it is cut off. -/
theorem category_of_ofPayload {sets : ParameterSets} (hSets : Readable sets) {payload : Bytes}
    {fault : Fault} (h : ofPayload sets payload = .error fault) :
    fault.category = .invalidData ∨ fault = .endOfData := by
  have hRead : Read.Steady (fun fault => fault.category = .invalidData ∨ fault = .endOfData)
      (read sets) :=
    steady_read (fun _ => .inl) (.inr rfl) fun ppsId pps sps hActive =>
      .inl (hSets ppsId pps sps hActive)
  exact fault_of_ofPayload hRead (.inl rfl) h

/-- Reading a frame number runs out of data exactly if the payload ends before the number does. -/
theorem ofPayload_eq_endOfData_iff {sets : ParameterSets} (hSets : Readable sets) (payload : Bytes) :
    ofPayload sets payload = .error .endOfData ↔ CutOff sets payload := by
  have hRest := rest_ofBytes payload
  constructor
  · intro h
    rcases except_bind_eq_error.mp h with h | ⟨field, _, h⟩
    · unfold Read.value? at h
      split at h
      case h_1 => cases h
      case h_2 hRead =>
        cases h
        rw [CutOff, ← hRest]
        exact exists_header_of_read hRead
    · dsimp only at h
      split at h <;> cases h
  · rintro ⟨missing, hMissing, hHeader⟩
    obtain ⟨s, hRead⟩ := stops_read hSets hHeader (ofBytes payload) missing hMissing
      (by rw [hRest])
    refine except_bind_eq_error.mpr (.inl ?_)
    rw [Read.value?, hRead]

/-- A slice reports the end of the data exactly if it is outside refresh pictures and cut off. -/
theorem ofSlice_eq_endOfData_iff {sets : ParameterSets} (hSets : Readable sets) (data : Bytes)
    (span : Nal.Span) : ofSlice sets data span = .error .endOfData ↔
      ¬ span.type.isIdr ∧ CutOff sets (span.payload data) := by
  rw [← ofPayload_eq_endOfData_iff hSets, ofSlice]
  by_cases hIdr : span.type.isIdr
  · simp [hIdr]
  · rw [if_neg hIdr, except_bind_eq_error]
    simp only [hIdr, Bool.false_eq_true, not_false_eq_true, true_and]
    exact or_iff_left (by rintro ⟨_, _, ⟨⟩⟩)

/-- What is wrong with the first of some slices that cannot be read. -/
def FirstFault (sets : ParameterSets) (data : Bytes) (spans : List Nal.Span) (fault : Fault) : Prop :=
  ∃ front span back, spans = front ++ span :: back ∧
    (∀ before ∈ front, ∃ number, ofSlice sets data before = .ok number) ∧
    ofSlice sets data span = .error fault

/-- The first fault is that of the first slice, or the first one behind it if that can be read. -/
theorem firstFault_cons {sets : ParameterSets} {data : Bytes} {span : Nal.Span}
    {spans : List Nal.Span} {fault : Fault} :
    FirstFault sets data (span :: spans) fault ↔ ofSlice sets data span = .error fault ∨
      ∃ number, ofSlice sets data span = .ok number ∧ FirstFault sets data spans fault := by
  constructor
  · rintro ⟨front, other, back, hSpans, hFront, hFault⟩
    rcases List.cons_eq_append_iff.mp hSpans with ⟨rfl, hSpans⟩ | ⟨rest, rfl, rfl⟩
    · cases hSpans
      exact .inl hFault
    · obtain ⟨number, hNumber⟩ := hFront span List.mem_cons_self
      exact .inr ⟨number, hNumber, rest, other, back, rfl,
        fun before hBefore => hFront before (List.mem_cons_of_mem _ hBefore), hFault⟩
  · rintro (hFault | ⟨number, hNumber, front, other, back, rfl, hFront, hFault⟩)
    · exact ⟨[], span, spans, rfl, by simp, hFault⟩
    · refine ⟨span :: front, other, back, rfl, ?_, hFault⟩
      rintro before (_ | ⟨_, hBefore⟩)
      · exact ⟨number, hNumber⟩
      · exact hFront before hBefore

/-- The first fault depends on the payloads of the slices only. -/
theorem firstFault_congr {sets : ParameterSets} {left right : Bytes} {spans : List Nal.Span}
    {fault : Fault} (h : ∀ span ∈ spans, span.payload left = span.payload right) :
    FirstFault sets left spans fault ↔ FirstFault sets right spans fault := by
  induction spans with
  | nil => simp [FirstFault]
  | cons span spans ih =>
      have hSame : ofSlice sets left span = ofSlice sets right span := by
        rw [ofSlice, ofSlice, h span List.mem_cons_self]
      rw [firstFault_cons, firstFault_cons, hSame,
        ih fun later hLater => h later (List.mem_cons_of_mem _ hLater)]

/-- Reading the slices of a packet stops at the first one that cannot be read. -/
theorem ofSlices_eq_error_iff {sets : ParameterSets} {data : Bytes} {spans : List Nal.Span}
    {first : Nat} {fault : Fault} :
    ofSlices sets data spans first = .error fault ↔ FirstFault sets data spans fault := by
  induction spans generalizing first with
  | nil => simp [ofSlices, FirstFault, pure, Except.pure]
  | cons span spans ih =>
      rw [firstFault_cons, ofSlices, List.foldlM_cons, except_bind_eq_error]
      exact or_congr_right (exists_congr fun number => and_congr_right fun _ => ih)

/-- A slice is damaged, or the data ends in it. -/
theorem category_of_firstFault {sets : ParameterSets} (hSets : Readable sets) {data : Bytes}
    {spans : List Nal.Span} {fault : Fault} (h : FirstFault sets data spans fault) :
    fault.category = .invalidData ∨ fault = .endOfData := by
  obtain ⟨_, _, _, _, _, hFault⟩ := h
  exact category_of_ofPayload hSets (ofPayload_of_ofSlice hFault)

/-- The first of some slices that cannot be read ends before its frame number does. Slices of refresh
pictures are not read. -/
def CutOffFirst (sets : ParameterSets) (data : Bytes) (spans : List Nal.Span) : Prop :=
  ∃ front span back, spans = front ++ span :: back ∧
    (∀ before ∈ front, ∃ number, ofSlice sets data before = .ok number) ∧
    ¬ span.type.isIdr ∧ CutOff sets (span.payload data)

/-- The end of the data is the first fault exactly if a slice is cut off and all before it can be
read. -/
theorem firstFault_endOfData_iff {sets : ParameterSets} (hSets : Readable sets) (data : Bytes)
    (spans : List Nal.Span) :
    FirstFault sets data spans .endOfData ↔ CutOffFirst sets data spans := by
  simp only [FirstFault, CutOffFirst, ofSlice_eq_endOfData_iff hSets]

end FrameNum

namespace Renumbered

variable {sets : ParameterSets} {adjustment : UInt32}

/-- A slice is written exactly if it can be read. -/
theorem ofSlice_of_writeSlice {span : Nal.Span} {data : Bytes} (hSpan : span.Within data)
    (hIdr : ¬ span.type.isIdr) :
    (∀ fault, writeSlice sets adjustment span data = .error fault →
      FrameNum.ofSlice sets data span = .error fault) ∧
    ∀ pair, writeSlice sets adjustment span data = .ok pair →
      ∃ number, FrameNum.ofSlice sets data span = .ok number := by
  rw [FrameNum.ofSlice, if_neg hIdr]
  constructor
  · intro fault h
    exact except_bind_eq_error.mpr (.inl (ofPayload_of_writeSlice hSpan h))
  · intro pair h
    exact ⟨pair.1.value, except_bind_eq_ok.mpr ⟨pair.1, (writeSlice_eq_ok h).1, rfl⟩⟩

/-- Renumbering stops at the same slice as reading. -/
theorem ofSlices_eq_error_iff {fault : Fault} {spans : List Nal.Span} {data : Bytes}
    (hLaid : FrameNum.Laid spans data) {last : Nat}
    (hIdr : ∀ span ∈ spans, ¬ span.type.isIdr) :
    (ofSlices sets adjustment spans data last).outcome.result = .error fault ↔
      FrameNum.FirstFault sets data spans fault := by
  induction spans generalizing data last with
  | nil => simp [ofSlices_nil, FrameNum.FirstFault, pure]
  | cons span spans ih =>
      obtain ⟨hError, hOk⟩ := @ofSlice_of_writeSlice sets adjustment span data hLaid.head
        (hIdr span List.mem_cons_self)
      rw [FrameNum.firstFault_cons]
      cases hWrite : writeSlice sets adjustment span data with
      | error other =>
          rw [(ofSlices_of_error spans last hWrite).2, hError other hWrite]
          simp
      | ok pair =>
          obtain ⟨hTail, hKeep⟩ := laid_of_writeSlice hWrite hLaid
          obtain ⟨number, hNumber⟩ := hOk pair hWrite
          rw [(ofSlices_of_ok spans last hWrite).2,
            ih hTail (fun later hLater => hIdr later (List.mem_cons_of_mem _ hLater)),
            FrameNum.firstFault_congr hKeep, hNumber]
          simp

end Renumbered

end Cadence
