import Cadence.Proofs.FrameNum.Renumbered

/-!
What renumbering makes of each payload. A packet that is renumbered holds the payloads that it held
before, with the bits of the frame numbers replaced (`payload_ofPacket`), and all other bytes of it stay
(`getElem?_ofPacket`).
-/

namespace Cadence

theorem Nal.Span.payload_eq_drop_take {span : Nal.Span} {data : Bytes} (h : span.Within data) :
    span.payload data = (data.take span.payloadEnd).drop span.payloadStart := by
  have hEnd : span.payloadEnd = span.payloadStart + (span.size - 1) := by
    have := h.1
    rw [payloadEnd, payloadStart]
    omega
  rw [payload, hEnd, List.drop_take, Nat.add_sub_cancel_left]

/-- Bytes are the same where their bits are. -/
theorem Bits.getElem?_congr {left right : Bytes} {place : Nat}
    (h : ∀ index, 8 * place ≤ index → index < 8 * place + 8 →
      (ofBytes left)[index]? = (ofBytes right)[index]?) : left[place]? = right[place]? := by
  have hByte : (left.drop place).take 1 = (right.drop place).take 1 := by
    refine ofBytes_injective ?_
    rw [ofBytes_take, ofBytes_take, ofBytes_drop, ofBytes_drop, Nat.mul_one]
    exact take_drop_congr h
  have hFirst := congrArg List.head? hByte
  rwa [List.head?_take, List.head?_take, if_neg Nat.one_ne_zero, if_neg Nat.one_ne_zero,
    List.head?_drop, List.head?_drop] at hFirst

theorem Nal.Span.length_payload {span : Nal.Span} {data : Bytes} (h : span.Within data) :
    (span.payload data).length = span.size - 1 := by
  obtain ⟨hPos, hEnd⟩ := h
  rw [payloadEnd] at hEnd
  rw [payload, List.length_take, List.length_drop, payloadStart]
  omega

/-- What stands in place of a payload is the payload then. -/
theorem Nal.Span.payload_append {span : Nal.Span} {data piece : Bytes} (h : span.Within data)
    (hPiece : piece.length = span.size - 1) :
    span.payload (data.take span.payloadStart ++ piece ++ data.drop span.payloadEnd) = piece := by
  have hStart : (data.take span.payloadStart).length = span.payloadStart := by
    obtain ⟨hPos, hEnd⟩ := h
    rw [payloadEnd] at hEnd
    rw [List.length_take, payloadStart]
    omega
  rw [payload, List.append_assoc, List.drop_left' hStart, List.take_left' hPiece]

namespace Renumbered

variable {sets : ParameterSets} {adjustment : UInt32}

/-- Moving a number in a packet is moving it in the payload of its slice. -/
theorem payload_of_writeSlice {span : Nal.Span} {data written : Bytes} {field : FrameNum}
    (h : writeSlice sets adjustment span data = .ok (field, written)) (hSpan : span.Within data) :
    Bits.overwrite (span.payload data) field.bitOffset field.bitWidth (field.adjusted adjustment)
      = .ok (span.payload written) := by
  obtain ⟨hField, hWrite⟩ := writeSlice_eq_ok h
  obtain ⟨hWidth, hRange, _⟩ := FrameNum.ofPayload_eq_ok hField
  rw [FrameNum.overwrite_payload _ hSpan hWidth hRange] at hWrite
  cases hPiece : Bits.overwrite (span.payload data) field.bitOffset field.bitWidth
      (field.adjusted adjustment) with
  | error fault =>
      rw [hPiece] at hWrite
      cases hWrite
  | ok piece =>
      rw [hPiece] at hWrite
      cases hWrite
      have hLength := (Bits.overwrite_eq_ok hPiece).2.2.1
      rw [Nal.Span.length_payload hSpan] at hLength
      rw [Nal.Span.payload_append hSpan hLength]

section Slices

variable {spans : List Nal.Span} {data : Bytes}

/-- A bit of a frame number lies in the payload of its slice. -/
theorem exists_payload_of_covers (hLaid : FrameNum.Laid spans data) {index : Nat}
    (h : FrameNum.Covers sets data spans index) :
    ∃ span ∈ spans, 8 * span.payloadStart ≤ index ∧ index < 8 * span.payloadEnd := by
  obtain ⟨span, hSpan, field, hField, hFrom, hTill⟩ := h
  obtain ⟨_, hStart, hEnd, _⟩ := FrameNum.ofPayload_field (hLaid.within span hSpan) hField
  exact ⟨span, hSpan, by omega, by omega⟩

/-- Nothing changes in front of the slices that are renumbered. -/
theorem take_ofSlices (last : Nat) (hLaid : FrameNum.Laid spans data) {stop : Nat}
    (hStop : ∀ span ∈ spans, stop ≤ span.offset) :
    (ofSlices sets adjustment spans data last).data.take stop = data.take stop := by
  refine Bits.ofBytes_injective ?_
  rw [Bits.ofBytes_take, Bits.ofBytes_take]
  refine @Bits.take_drop_congr _ _ _ 0 _ fun index _ hIndex => ?_
  refine (ofSlices_frame hLaid last).2 index fun hCovers => ?_
  obtain ⟨span, hSpan, hFrom, _⟩ := exists_payload_of_covers hLaid hCovers
  have hBehind := hStop span hSpan
  rw [Nal.Span.payloadStart] at hFrom
  omega

/-- Nothing changes between the payloads. -/
theorem getElem?_ofSlices (last : Nat) (hLaid : FrameNum.Laid spans data) {place : Nat}
    (hPlace : ∀ span ∈ spans, ¬ (span.payloadStart ≤ place ∧ place < span.payloadEnd)) :
    (ofSlices sets adjustment spans data last).data[place]? = data[place]? := by
  refine Bits.getElem?_congr fun index hFrom hTill => ?_
  refine (ofSlices_frame hLaid last).2 index fun hCovers => ?_
  obtain ⟨span, hSpan, hStart, hEnd⟩ := exists_payload_of_covers hLaid hCovers
  exact hPlace span hSpan ⟨by omega, by omega⟩

/-- If all slices are renumbered, the bits of the frame number are replaced in each payload. -/
theorem payload_ofSlices {last : Nat} {result : Renumbering} (hLaid : FrameNum.Laid spans data)
    (h : (ofSlices sets adjustment spans data last).outcome.result = .ok result) :
    ∀ span ∈ spans, ∃ field, FrameNum.ofPayload sets (span.payload data) = .ok field ∧
      Bits.overwrite (span.payload data) field.bitOffset field.bitWidth (field.adjusted adjustment)
        = .ok (span.payload (ofSlices sets adjustment spans data last).data) := by
  induction spans generalizing data last with
  | nil => simp
  | cons span spans ih =>
      cases hWrite : writeSlice sets adjustment span data with
      | error fault =>
          rw [(ofSlices_of_error spans last hWrite).2] at h
          cases h
      | ok pair =>
          obtain ⟨field, written⟩ := pair
          have hSpan := hLaid.head
          obtain ⟨hField, hOverwrite⟩ := writeSlice_eq_ok hWrite
          obtain ⟨hTail, hKeep⟩ := laid_of_writeSlice hWrite hLaid
          rw [(ofSlices_of_ok spans last hWrite).2] at h
          rw [(ofSlices_of_ok spans last hWrite).1]
          intro other hOther
          rcases List.mem_cons.mp hOther with rfl | hOther
          · refine ⟨field, hField, ?_⟩
            have hLength := (Bits.overwrite_eq_ok hOverwrite).2.2.1
            have hWritten : other.Within written := ⟨hSpan.1, hLength ▸ hSpan.2⟩
            have hSame := (@ofSlices_frame sets adjustment _ _ hTail (field.adjusted adjustment)).1
            have hAfter : other.Within
                (ofSlices sets adjustment spans written (field.adjusted adjustment)).data :=
              ⟨hSpan.1, hSame ▸ hWritten.2⟩
            -- later slices are written behind this one
            rw [Nal.Span.payload_eq_drop_take hAfter, take_ofSlices _ hTail hLaid.behind,
              ← Nal.Span.payload_eq_drop_take hWritten]
            exact payload_of_writeSlice hWrite hSpan
          · obtain ⟨found, hFound, hPayload⟩ := ih hTail h other hOther
            rw [hKeep other hOther] at hFound hPayload
            exact ⟨found, hFound, hPayload⟩

end Slices

/-- A packet that is renumbered has slices, none of them of a refresh picture, and all of them are
renumbered. -/
theorem ofPacket_eq_done {data : Bytes} {scan : Nal.Scan} {last : Nat}
    (hScan : Nal.scan sets.framing data = .ok scan)
    (h : (ofPacket sets adjustment data).outcome.result = .ok (.done last)) :
    FrameNum.slices scan ≠ [] ∧ (∀ span ∈ FrameNum.slices scan, ¬ span.type.isIdr) ∧
      (ofPacket sets adjustment data).data
        = (ofSlices sets adjustment (FrameNum.slices scan) data 0).data ∧
      (ofSlices sets adjustment (FrameNum.slices scan) data 0).outcome.result = .ok (.done last) := by
  by_cases hAlone : LeftAlone scan
  · cases h.symm.trans (ofPacket_of_leftAlone hScan hAlone).1
  · obtain ⟨hResult, hData⟩ := @ofPacket_of_not_leftAlone sets adjustment data scan hScan hAlone
    obtain ⟨hSome, hIdr⟩ := not_leftAlone_iff.mp hAlone
    exact ⟨hSome, hIdr, hData, hResult.symm.trans h⟩

section Packet

variable {data : Bytes} {scan : Nal.Scan} {last : Nat}

/-- Each slice of a packet that is renumbered holds its old payload, with the number moved forward. -/
theorem payload_ofPacket (hScan : Nal.scan sets.framing data = .ok scan)
    (h : (ofPacket sets adjustment data).outcome.result = .ok (.done last)) {span : Nal.Span}
    (hSpan : span ∈ FrameNum.slices scan) :
    ∃ field, FrameNum.ofPayload sets (span.payload data) = .ok field ∧
      Bits.overwrite (span.payload data) field.bitOffset field.bitWidth (field.adjusted adjustment)
        = .ok (span.payload (ofPacket sets adjustment data).data) := by
  obtain ⟨_, _, hData, hDone⟩ := ofPacket_eq_done hScan h
  rw [hData]
  exact payload_ofSlices (FrameNum.slices_laid hScan) hDone span hSpan

/-- Renumbering does not change the size of a packet. -/
theorem length_ofPacket (hScan : Nal.scan sets.framing data = .ok scan)
    (h : (ofPacket sets adjustment data).outcome.result = .ok (.done last)) :
    (ofPacket sets adjustment data).data.length = data.length := by
  obtain ⟨_, _, hData, _⟩ := ofPacket_eq_done hScan h
  rw [hData]
  exact (ofSlices_frame (FrameNum.slices_laid hScan) 0).1

/-- The bytes of a packet that are in no payload of a slice stay. -/
theorem getElem?_ofPacket (hScan : Nal.scan sets.framing data = .ok scan)
    (h : (ofPacket sets adjustment data).outcome.result = .ok (.done last)) {place : Nat}
    (hPlace : ∀ span ∈ FrameNum.slices scan,
      ¬ (span.payloadStart ≤ place ∧ place < span.payloadEnd)) :
    (ofPacket sets adjustment data).data[place]? = data[place]? := by
  obtain ⟨_, _, hData, _⟩ := ofPacket_eq_done hScan h
  rw [hData]
  exact getElem?_ofSlices 0 (FrameNum.slices_laid hScan) hPlace

/-- The number that is reported is the one that the last slice has now. -/
theorem last_ofPacket (hScan : Nal.scan sets.framing data = .ok scan)
    (h : (ofPacket sets adjustment data).outcome.result = .ok (.done last)) {span : Nal.Span}
    {field : FrameNum} (hLast : (FrameNum.slices scan).getLast? = some span)
    (hField : FrameNum.ofPayload sets (span.payload data) = .ok field) :
    last = field.adjusted adjustment := by
  obtain ⟨_, _, _, hDone⟩ := ofPacket_eq_done hScan h
  have hNumber := (ofSlices_done (FrameNum.slices_laid hScan) hDone).2.2 span field hLast hField
  cases hNumber
  rfl

end Packet

end Renumbered

end Cadence
