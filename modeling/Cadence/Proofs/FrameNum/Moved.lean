import Cadence.Proofs.FrameNum.Faults
import Cadence.Proofs.FrameNum.Payloads

/-!
Everything that renumbering does to a packet. A packet without slices, or with one of a refresh picture, is
left alone; otherwise the numbers of all slices are moved forward, or those of the slices in front of the
first one whose number cannot be read. No other bit of the packet changes (`moves_ofPacket`).
-/

namespace Cadence

namespace Renumbered

/-- The frame numbers of these slices have been moved forward, and nothing else in the packet has changed.
Number, place and width of a field are those in the packet as it was. -/
structure Moves (sets : ParameterSets) (adjustment : UInt32) (data written : Bytes)
    (spans : List Nal.Span) : Prop where
  length : written.length = data.length
  field : ∀ span ∈ spans, ∃ field, FrameNum.ofPayload sets (span.payload data) = .ok field ∧
    field.value = Bits.field data (field.place span) field.bitWidth ∧
    Bits.field written (field.place span) field.bitWidth
      = (field.value + adjustment.toNat) % 2 ^ field.bitWidth
  outside : ∀ index, ¬ FrameNum.Covers sets data spans index →
    (Bits.ofBytes written)[index]? = (Bits.ofBytes data)[index]?

variable {sets : ParameterSets} {adjustment : UInt32}

/-- Slices that are all renumbered are moved. -/
theorem moves_of_done {spans : List Nal.Span} {data : Bytes} {last : Nat} {result : Renumbering}
    (hLaid : FrameNum.Laid spans data)
    (h : (ofSlices sets adjustment spans data last).outcome.result = .ok result) :
    Moves sets adjustment data (ofSlices sets adjustment spans data last).data spans := by
  obtain ⟨hLength, hOutside⟩ := @ofSlices_frame sets adjustment _ _ hLaid last
  refine ⟨hLength, fun span hSpan => ?_, hOutside⟩
  obtain ⟨field, hField, hMoved⟩ := (ofSlices_done hLaid h).1 span hSpan
  obtain ⟨hWidth, _, _, hValue⟩ := FrameNum.ofPayload_field (hLaid.within span hSpan) hField
  refine ⟨field, hField, hValue, ?_⟩
  rw [hMoved, FrameNum.adjusted_eq adjustment hWidth]

section Packet

variable {data : Bytes}

/-- Renumbering ends exactly at packets that are left alone. -/
theorem ofPacket_eq_endOfGop_iff :
    (ofPacket sets adjustment data).outcome.result = .ok .endOfGop ↔
      ∃ scan, Nal.scan sets.framing data = .ok scan ∧ LeftAlone scan := by
  constructor
  · intro h
    cases hScan : Nal.scan sets.framing data with
    | error fault =>
        rw [ofPacket_of_fault hScan] at h
        cases h
    | ok scan =>
        refine ⟨scan, rfl, ?_⟩
        by_contra hSlices
        rw [(ofPacket_of_not_leftAlone hScan hSlices).1] at h
        obtain ⟨_, hDone⟩ := exists_done_of_ofSlices h
        cases hDone
  · rintro ⟨scan, hScan, hAlone⟩
    exact (ofPacket_of_leftAlone hScan hAlone).1

/-- A packet whose last number is reported has been renumbered in all slices. -/
theorem moves_of_ofPacket_done {last : Nat}
    (h : (ofPacket sets adjustment data).outcome.result = .ok (.done last)) :
    ∃ scan, Nal.scan sets.framing data = .ok scan ∧
      Moves sets adjustment data (ofPacket sets adjustment data).data (FrameNum.slices scan) ∧
      ∃ span field, (FrameNum.slices scan).getLast? = some span ∧
        FrameNum.ofPayload sets (span.payload data) = .ok field ∧
        last = (field.value + adjustment.toNat) % 2 ^ field.bitWidth := by
  cases hScan : Nal.scan sets.framing data with
  | error fault =>
      rw [ofPacket_of_fault hScan] at h
      cases h
  | ok scan =>
      obtain ⟨hSome, _, hData, hDone⟩ := ofPacket_eq_done hScan h
      have hMoves := moves_of_done (FrameNum.slices_laid hScan) hDone
      have hLast := List.getLast?_eq_some_getLast hSome
      obtain ⟨field, hField, _⟩ := hMoves.field _ (List.getLast_mem hSome)
      refine ⟨scan, rfl, hData ▸ hMoves, _, field, hLast, hField, ?_⟩
      rw [last_ofPacket hScan h hLast hField,
        FrameNum.adjusted_eq adjustment (FrameNum.ofPayload_eq_ok hField).1]

/-- A packet for which a fault is reported has been renumbered up to the slice that cannot be read. -/
theorem moves_of_ofPacket_error {fault : Fault}
    (h : (ofPacket sets adjustment data).outcome.result = .error fault) :
    (Nal.scan sets.framing data = .error fault ∧ (ofPacket sets adjustment data).data = data) ∨
      ∃ scan front span back, Nal.scan sets.framing data = .ok scan ∧
        FrameNum.slices scan = front ++ span :: back ∧
        FrameNum.ofPayload sets (span.payload data) = .error fault ∧
        Moves sets adjustment data (ofPacket sets adjustment data).data front := by
  cases hScan : Nal.scan sets.framing data with
  | error other =>
      rw [ofPacket_of_fault hScan] at h ⊢
      cases h
      exact .inl ⟨rfl, rfl⟩
  | ok scan =>
      have hSlices : ¬ LeftAlone scan := fun hAlone => by
        cases h.symm.trans (ofPacket_of_leftAlone hScan hAlone).1
      obtain ⟨hResult, hData⟩ := @ofPacket_of_not_leftAlone sets adjustment data scan hScan hSlices
      have hLaid := FrameNum.slices_laid hScan
      obtain ⟨front, span, back, hSplit, hFault, ⟨result, hDone⟩, hFront⟩ :=
        exists_front_of_error hLaid (hResult.symm.trans h)
      rw [hSplit] at hLaid
      refine .inr ⟨scan, front, span, back, rfl, hSplit, hFault, ?_⟩
      rw [hData, hFront]
      exact moves_of_done hLaid.front hDone

end Packet

/-- What renumbering does to a packet, for all parameter sets and adjustments. A packet is left alone exactly
if its units can be found and none of them is a slice, or one is a slice of a refresh picture. If a number is
reported, all slices have been moved, and it is the number that the last one has now. If a fault is reported,
the units cannot be found, or a slice cannot be read and exactly the slices in front of it have been moved. -/
theorem moves_ofPacket (sets : ParameterSets) (adjustment : UInt32) (data : Bytes) :
    (((ofPacket sets adjustment data).outcome.result = .ok .endOfGop ↔
        ∃ scan, Nal.scan sets.framing data = .ok scan ∧ LeftAlone scan) ∧
      ((ofPacket sets adjustment data).outcome.result = .ok .endOfGop →
        (ofPacket sets adjustment data).data = data)) ∧
    (∀ last, (ofPacket sets adjustment data).outcome.result = .ok (.done last) →
      ∃ scan, Nal.scan sets.framing data = .ok scan ∧
        Moves sets adjustment data (ofPacket sets adjustment data).data (FrameNum.slices scan) ∧
        ∃ span field, (FrameNum.slices scan).getLast? = some span ∧
          FrameNum.ofPayload sets (span.payload data) = .ok field ∧
          last = (field.value + adjustment.toNat) % 2 ^ field.bitWidth) ∧
    (∀ fault, (ofPacket sets adjustment data).outcome.result = .error fault →
      (Nal.scan sets.framing data = .error fault ∧ (ofPacket sets adjustment data).data = data) ∨
      ∃ scan front span back, Nal.scan sets.framing data = .ok scan ∧
        FrameNum.slices scan = front ++ span :: back ∧
        FrameNum.ofPayload sets (span.payload data) = .error fault ∧
        Moves sets adjustment data (ofPacket sets adjustment data).data front) := by
  refine ⟨⟨ofPacket_eq_endOfGop_iff, fun h => ?_⟩, fun _ => moves_of_ofPacket_done,
    fun _ => moves_of_ofPacket_error⟩
  obtain ⟨scan, hScan, hAlone⟩ := ofPacket_eq_endOfGop_iff.mp h
  exact (ofPacket_of_leftAlone hScan hAlone).2

end Renumbered

end Cadence
