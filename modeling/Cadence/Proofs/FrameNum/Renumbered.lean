import Cadence.Proofs.FrameNum.Place

/-!
What renumbering does to the slices of a packet, which lie one behind the other (`Laid`): the length stays, no
bit outside their frame numbers changes (`ofSlices_frame`), and if all of them are renumbered each field holds
its old number moved forward (`ofSlices_done`). The fields are those of the packet before any of them was
written.
-/

namespace Cadence

theorem Bits.field_congr {left right : Bytes} {place width : Nat}
    (h : ∀ index, place ≤ index → index < place + width →
      (ofBytes left)[index]? = (ofBytes right)[index]?) :
    field left place width = field right place width := by
  rw [field, field, take_drop_congr h]

namespace FrameNum

/-- Slices that lie in a packet, one behind the other. -/
structure Laid (spans : List Nal.Span) (data : Bytes) : Prop where
  within : ∀ span ∈ spans, span.Within data
  apart : spans.Pairwise fun first later => first.payloadEnd ≤ later.offset

namespace Laid

variable {span : Nal.Span} {spans : List Nal.Span} {data : Bytes}

theorem head (h : Laid (span :: spans) data) : span.Within data :=
  h.within span List.mem_cons_self

theorem behind (h : Laid (span :: spans) data) : ∀ later ∈ spans, span.payloadEnd ≤ later.offset :=
  (List.pairwise_cons.mp h.apart).1

theorem tail (h : Laid (span :: spans) data) : Laid spans data :=
  ⟨fun later hLater => h.within later (List.mem_cons_of_mem _ hLater), (List.pairwise_cons.mp h.apart).2⟩

theorem front {back : List Nal.Span} (h : Laid (spans ++ back) data) : Laid spans data :=
  ⟨fun span hSpan => h.within span (List.mem_append_left _ hSpan), (List.pairwise_append.mp h.apart).1⟩

end Laid

/-- The slices of a packet lie one behind the other within it. -/
theorem slices_laid {framing : Nal.Framing} {data : Bytes} {scan : Nal.Scan}
    (h : Nal.scan framing data = .ok scan) : Laid (slices scan) data := by
  obtain ⟨hWithin, hApart⟩ := Nal.scan_laid h
  exact ⟨fun span hSpan => hWithin span (List.mem_filter.mp hSpan).1, hApart.filter _⟩

end FrameNum

namespace Renumbered

variable {sets : ParameterSets} {adjustment : UInt32}

/-- Writing the frame number of one slice. -/
def writeSlice (sets : ParameterSets) (adjustment : UInt32) (span : Nal.Span) (data : Bytes) :
    Except Fault (FrameNum × Bytes) := do
  let field ← FrameNum.ofPayload sets (span.payload data)
  return (field, ← Bits.overwrite data (field.place span) field.bitWidth (field.adjusted adjustment))

theorem ofSlices_nil (data : Bytes) (last : Nat) :
    ofSlices sets adjustment [] data last = ⟨data, pure (.done last)⟩ := by
  rfl

/-- The first slice is written, and the others follow in what that leaves. -/
theorem ofSlices_cons (span : Nal.Span) (spans : List Nal.Span) (data : Bytes) (last : Nat) :
    ofSlices sets adjustment (span :: spans) data last =
      match writeSlice sets adjustment span data with
      | .error fault => ⟨data, ⟨.error fault, []⟩⟩
      | .ok (field, written) =>
        let rest := ofSlices sets adjustment spans written (field.adjusted adjustment)
        { rest with
          outcome := do
            Outcome.note [.frameNumRewritten field.value (field.adjusted adjustment) adjustment]
            rest.outcome } := by
  rfl

/-- A slice that cannot be moved ends the renumbering, and is left as it is. -/
theorem ofSlices_of_error {span : Nal.Span} {data : Bytes} {fault : Fault}
    (spans : List Nal.Span) (last : Nat)
    (h : writeSlice sets adjustment span data = .error fault) :
    (ofSlices sets adjustment (span :: spans) data last).data = data ∧
      (ofSlices sets adjustment (span :: spans) data last).outcome.result = .error fault := by
  rw [ofSlices_cons, h]
  exact ⟨rfl, rfl⟩

/-- A slice that is moved is written before the ones behind it are read. -/
theorem ofSlices_of_ok {span : Nal.Span} {data written : Bytes} {field : FrameNum}
    (spans : List Nal.Span) (last : Nat)
    (h : writeSlice sets adjustment span data = .ok (field, written)) :
    (ofSlices sets adjustment (span :: spans) data last).data
        = (ofSlices sets adjustment spans written (field.adjusted adjustment)).data ∧
      (ofSlices sets adjustment (span :: spans) data last).outcome.result
        = (ofSlices sets adjustment spans written (field.adjusted adjustment)).outcome.result := by
  rw [ofSlices_cons, h]
  refine ⟨rfl, ?_⟩
  simp only [Outcome.result_bind, Outcome.result_note]
  rfl

/-- One slice is written at its field, within its payload. -/
theorem writeSlice_eq_ok {span : Nal.Span} {data written : Bytes} {field : FrameNum}
    (h : writeSlice sets adjustment span data = .ok (field, written)) :
    FrameNum.ofPayload sets (span.payload data) = .ok field ∧
      Bits.overwrite data (field.place span) field.bitWidth (field.adjusted adjustment)
        = .ok written := by
  obtain ⟨found, hField, h⟩ := except_bind_eq_ok.mp h
  obtain ⟨out, hWrite, h⟩ := except_bind_eq_ok.mp h
  cases h
  exact ⟨hField, hWrite⟩

/-- Slices behind the one that is written keep their places and their payloads. -/
theorem laid_of_writeSlice {span : Nal.Span} {spans : List Nal.Span} {data written : Bytes}
    {field : FrameNum} (h : writeSlice sets adjustment span data = .ok (field, written))
    (hLaid : FrameNum.Laid (span :: spans) data) :
    FrameNum.Laid spans written ∧ ∀ later ∈ spans, later.payload written = later.payload data := by
  obtain ⟨hField, hWrite⟩ := writeSlice_eq_ok h
  obtain ⟨_, _, hRange, _⟩ := FrameNum.ofPayload_field hLaid.head hField
  have hLength := (Bits.overwrite_eq_ok hWrite).2.2.1
  refine ⟨⟨fun later hLater => ?_, hLaid.tail.apart⟩, fun later hLater => ?_⟩
  · obtain ⟨hPos, hEnd⟩ := hLaid.tail.within later hLater
    exact ⟨hPos, hLength ▸ hEnd⟩
  · have hBehind := hLaid.behind later hLater
    have hStart : later.offset < later.payloadStart := Nat.lt_succ_self _
    rw [Nal.Span.payload, Nal.Span.payload, Bits.drop_of_overwrite hWrite (by omega)]

/-- Slices that are all renumbered end in a number, never at a fresh start. -/
theorem exists_done_of_ofSlices {spans : List Nal.Span} {data : Bytes} {last : Nat}
    {result : Renumbering}
    (h : (ofSlices sets adjustment spans data last).outcome.result = .ok result) :
    ∃ number, result = .done number := by
  induction spans generalizing data last with
  | nil =>
      cases h
      exact ⟨last, rfl⟩
  | cons span spans ih =>
      cases hWrite : writeSlice sets adjustment span data with
      | error fault =>
          rw [(ofSlices_of_error spans last hWrite).2] at h
          cases h
      | ok pair =>
          rw [(ofSlices_of_ok spans last hWrite).2] at h
          exact ih h

/-- Bits outside the frame numbers stay, also when a slice in between cannot be renumbered. -/
theorem ofSlices_frame {spans : List Nal.Span} {data : Bytes} (hLaid : FrameNum.Laid spans data)
    (last : Nat) :
    (ofSlices sets adjustment spans data last).data.length = data.length ∧
      ∀ index, ¬ FrameNum.Covers sets data spans index →
        (Bits.ofBytes (ofSlices sets adjustment spans data last).data)[index]?
          = (Bits.ofBytes data)[index]? := by
  induction spans generalizing data last with
  | nil => exact ⟨rfl, fun _ _ => rfl⟩
  | cons span spans ih =>
      cases hWrite : writeSlice sets adjustment span data with
      | error fault =>
          rw [(ofSlices_of_error spans last hWrite).1]
          exact ⟨rfl, fun _ _ => rfl⟩
      | ok pair =>
          obtain ⟨field, written⟩ := pair
          obtain ⟨hField, hOverwrite⟩ := writeSlice_eq_ok hWrite
          have hLength := (Bits.overwrite_eq_ok hOverwrite).2.2.1
          obtain ⟨hTail, hKeep⟩ := laid_of_writeSlice hWrite hLaid
          obtain ⟨hSame, hFrame⟩ := ih hTail (field.adjusted adjustment)
          rw [(ofSlices_of_ok spans last hWrite).1]
          refine ⟨hSame.trans hLength, fun index hIndex => ?_⟩
          have hOutside : index < field.place span ∨ field.place span + field.bitWidth ≤ index := by
            by_contra hInside
            exact hIndex ⟨span, List.mem_cons_self, field, hField, by omega, by omega⟩
          rw [hFrame index ?_, Bits.getElem?_of_overwrite hOverwrite hOutside]
          rintro ⟨later, hLater, other, hOther, hRange⟩
          rw [hKeep later hLater] at hOther
          exact hIndex ⟨later, List.mem_cons_of_mem _ hLater, other, hOther, hRange⟩

/-- If all slices are renumbered, each field holds the number that its slice had before, moved
forward, and the number of the last slice is reported. -/
theorem ofSlices_done {spans : List Nal.Span} {data : Bytes} (hLaid : FrameNum.Laid spans data)
    {last : Nat} {result : Renumbering}
    (h : (ofSlices sets adjustment spans data last).outcome.result = .ok result) :
    (∀ span ∈ spans, ∃ field, FrameNum.ofPayload sets (span.payload data) = .ok field ∧
      Bits.field (ofSlices sets adjustment spans data last).data (field.place span) field.bitWidth
        = field.adjusted adjustment) ∧
    (spans = [] → result = .done last) ∧
    ∀ span field, spans.getLast? = some span →
      FrameNum.ofPayload sets (span.payload data) = .ok field →
        result = .done (field.adjusted adjustment) := by
  induction spans generalizing data last with
  | nil =>
      cases h
      exact ⟨by simp, fun _ => rfl, by simp⟩
  | cons span spans ih =>
      cases hWrite : writeSlice sets adjustment span data with
      | error fault =>
          rw [(ofSlices_of_error spans last hWrite).2] at h
          cases h
      | ok pair =>
          obtain ⟨field, written⟩ := pair
          obtain ⟨hField, hOverwrite⟩ := writeSlice_eq_ok hWrite
          obtain ⟨hTail, hKeep⟩ := laid_of_writeSlice hWrite hLaid
          rw [(ofSlices_of_ok spans last hWrite).1]
          rw [(ofSlices_of_ok spans last hWrite).2] at h
          obtain ⟨hFields, hNone, hLast⟩ := ih hTail h
          obtain ⟨hWidth, _, hRange, _⟩ := FrameNum.ofPayload_field hLaid.head hField
          refine ⟨fun other hOther => ?_, by simp, fun other found hOther hFound => ?_⟩
          · rcases List.mem_cons.mp hOther with rfl | hOther
            · refine ⟨field, hField, ?_⟩
              -- later slices are written behind this one
              have hFrame := (@ofSlices_frame sets adjustment _ _ hTail (field.adjusted adjustment)).2
              rw [Bits.field_congr fun index hFrom hTill => hFrame index ?_,
                Bits.field_of_overwrite hOverwrite, FrameNum.adjusted_eq adjustment hWidth,
                Nat.mod_mod]
              rintro ⟨later, hMem, number, hNumber, hStart, _⟩
              have hBehind := (FrameNum.ofPayload_field (hTail.within later hMem) hNumber).2.1
              have hOffset := hLaid.behind later hMem
              have hStep : later.offset < later.payloadStart := Nat.lt_succ_self _
              omega
            · obtain ⟨number, hNumber, hValue⟩ := hFields other hOther
              rw [hKeep other hOther] at hNumber
              exact ⟨number, hNumber, hValue⟩
          · cases spans with
            | nil =>
                cases hOther
                cases hField.symm.trans hFound
                exact hNone rfl
            | cons next spans =>
                rw [List.getLast?_cons_cons] at hOther
                have hMem := List.mem_of_getLast? hOther
                exact hLast other found hOther (hKeep other hMem ▸ hFound)

section Packet

variable {data : Bytes} {scan : Nal.Scan}

/-- A packet that renumbering leaves alone: none of its units is a slice, or one is a slice of a refresh
picture. -/
def LeftAlone (scan : Nal.Scan) : Prop :=
  FrameNum.slices scan = [] ∨ ∃ span ∈ FrameNum.slices scan, span.type.isIdr

/-- A packet is renumbered exactly if it has slices, all outside refresh pictures. -/
theorem not_leftAlone_iff : ¬ LeftAlone scan ↔
    FrameNum.slices scan ≠ [] ∧ ∀ span ∈ FrameNum.slices scan, ¬ span.type.isIdr := by
  simp [LeftAlone]

/-- Nothing happens to a packet whose units cannot be found. -/
theorem ofPacket_of_fault {fault : Fault} (hScan : Nal.scan sets.framing data = .error fault) :
    ofPacket sets adjustment data = ⟨data, ⟨.error fault, []⟩⟩ := by
  rw [ofPacket, hScan]

/-- A packet that is left alone ends the renumbering and keeps its data. -/
theorem ofPacket_of_leftAlone (hScan : Nal.scan sets.framing data = .ok scan) (h : LeftAlone scan) :
    (ofPacket sets adjustment data).outcome.result = .ok .endOfGop ∧
      (ofPacket sets adjustment data).data = data := by
  rw [ofPacket, hScan]
  dsimp only
  rw [if_pos (by simpa [LeftAlone] using h)]
  exact ⟨rfl, rfl⟩

/-- All slices of another packet are renumbered, one after the other. -/
theorem ofPacket_of_not_leftAlone (hScan : Nal.scan sets.framing data = .ok scan)
    (h : ¬ LeftAlone scan) :
    (ofPacket sets adjustment data).outcome.result
        = (ofSlices sets adjustment (FrameNum.slices scan) data 0).outcome.result ∧
      (ofPacket sets adjustment data).data
        = (ofSlices sets adjustment (FrameNum.slices scan) data 0).data := by
  rw [ofPacket, hScan]
  dsimp only
  rw [if_neg (by simpa [LeftAlone] using h), Outcome.result_bind]
  exact ⟨rfl, rfl⟩

end Packet

end Renumbered

end Cadence
