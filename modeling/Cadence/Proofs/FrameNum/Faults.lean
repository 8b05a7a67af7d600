import Cadence.Proofs.FrameNum.Renumbered
import Cadence.Proofs.Nal.Selected

/-!
What can go wrong when the frame numbers of a packet are read or moved: the packet is damaged, it is
cut off, or the parameter sets give the field a width that cannot be read. Writing a field that has
been read never fails, so renumbering stops at the first slice that cannot be read
(`exists_front_of_error`).
-/

namespace Cadence

/-- The fault lies in the data of a packet, or in the width of a field. -/
def Fault.InPacket (fault : Fault) : Prop :=
  fault.category = .invalidData ∨ fault.category = .endOfStream ∨
    ∃ width, 32 < width ∧ fault = .readWidth width

theorem Fault.InPacket.ne_needMoreData {fault : Fault} (h : fault.InPacket) :
    fault ≠ .needMoreData := by
  rintro rfl
  rcases h with h | h | ⟨_, _, h⟩ <;> cases h

namespace FrameNum

open BitReader

theorem category_of_active {sets : ParameterSets} {ppsId : Nat} {fault : Fault}
    (h : sets.active ppsId = .error fault) : fault.category = .invalidData := by
  unfold ParameterSets.active at h
  split at h
  case h_1 => cases h; rfl
  case h_2 =>
    split at h <;> cases h
    rfl

/-- Reading up to a frame number runs into damage, into the end of the data, or into a width that cannot
be read. -/
theorem steady_read {allowed : Fault → Prop} {sets : ParameterSets}
    (hData : ∀ fault, fault.category = .invalidData → allowed fault) (hEnd : allowed .endOfData)
    (hWidth : ∀ ppsId pps sps, sets.active ppsId = .ok (pps, sps) →
      sps.log2MaxFrameNum ≤ 32 ∨ allowed (.readWidth sps.log2MaxFrameNum)) :
    Read.Steady allowed (read sets) := by
  have steady : Read.Steady allowed readUe := .readUe hEnd (hData .golombTooLong rfl)
  refine (steady.skipMany 2).bind fun _ _ _ _ => steady.bind fun ppsId _ _ _ => ?_
  dsimp only
  split
  case isTrue => exact .throw (hData _ rfl)
  case isFalse =>
    cases hActive : sets.active ppsId with
    | error fault => exact .throw (hData _ (category_of_active hActive))
    | ok pair =>
        have hGet : Read.Steady allowed (get : Read BitReader) :=
          ⟨fun _ _ _ h => by cases h; exact .refl _, fun _ _ _ h => by cases h⟩
        exact (Read.Steady.pure _).bind fun sps _ _ hSps => by
          cases hSps
          exact hGet.bind fun _ _ _ _ =>
            (Read.Steady.readBits hEnd (hWidth ppsId pair.1 pair.2 hActive)).bind fun _ _ _ _ => .pure _

/-- The faults of a payload are those of its header, and an escape byte in front of the number. -/
theorem fault_of_ofPayload {allowed : Fault → Prop} {sets : ParameterSets}
    (hRead : Read.Steady allowed (read sets)) (hEscape : allowed .escapedFrameNum) {payload : Bytes}
    {fault : Fault} (h : ofPayload sets payload = .error fault) : allowed fault := by
  rcases except_bind_eq_error.mp h with h | ⟨field, _, h⟩
  · unfold Read.value? at h
    split at h
    case h_1 => cases h
    case h_2 hFault =>
      cases h
      exact (hRead.error _ _ _ hFault).2
  · dsimp only at h
    split at h <;> cases h
    exact hEscape

/-- Whatever is wrong with a payload, it is a fault in the packet. -/
theorem inPacket_of_ofPayload {sets : ParameterSets} {payload : Bytes} {fault : Fault}
    (h : ofPayload sets payload = .error fault) : fault.InPacket := by
  refine fault_of_ofPayload (steady_read (fun _ => .inl) (.inr (.inl rfl)) fun _ _ sps _ => ?_)
    (.inl rfl) h
  exact (Nat.lt_or_ge 32 _).symm.imp_right fun hWide => .inr (.inr ⟨_, hWide, rfl⟩)

theorem ofPayload_of_ofSlice {sets : ParameterSets} {data : Bytes} {span : Nal.Span} {fault : Fault}
    (h : ofSlice sets data span = .error fault) :
    ofPayload sets (span.payload data) = .error fault := by
  unfold ofSlice at h
  split at h
  case isTrue => cases h
  case isFalse =>
    rcases except_bind_eq_error.mp h with h | ⟨_, _, h⟩
    · exact h
    · cases h

/-- A packet that cannot be read has a fault in it. -/
theorem inPacket_of_ofPacket {sets : ParameterSets} {data : Bytes} {fault : Fault}
    (h : (ofPacket sets data).result = .error fault) : fault.InPacket := by
  rw [result_ofPacket] at h
  rcases except_bind_eq_error.mp h with h | ⟨scan, _, h⟩
  · exact .inl (Nal.category_of_scan h)
  · obtain ⟨span, _, hSlice⟩ := ofSlices_eq_error h
    exact inPacket_of_ofPayload (ofPayload_of_ofSlice hSlice)

end FrameNum

namespace Renumbered

variable {sets : ParameterSets} {adjustment : UInt32}

/-- A field that has been read can be written. -/
theorem ofPayload_of_writeSlice {span : Nal.Span} {data : Bytes} {fault : Fault}
    (hSpan : span.Within data) (h : writeSlice sets adjustment span data = .error fault) :
    FrameNum.ofPayload sets (span.payload data) = .error fault := by
  rcases except_bind_eq_error.mp h with h | ⟨field, hField, h⟩
  · exact h
  · obtain ⟨hWidth, _, hRange, _⟩ := FrameNum.ofPayload_field hSpan hField
    have hEnd := hSpan.2
    rcases except_bind_eq_error.mp h with h | ⟨_, _, h⟩
    · rw [Bits.overwrite, if_neg (by omega), if_neg (by omega)] at h
      cases h
    · cases h

/-- Renumbering that fails has renumbered the slices in front of the one that cannot be read, and no other. -/
theorem exists_front_of_error {spans : List Nal.Span} {data : Bytes} {last : Nat} {fault : Fault}
    (hLaid : FrameNum.Laid spans data)
    (h : (ofSlices sets adjustment spans data last).outcome.result = .error fault) :
    ∃ front span back, spans = front ++ span :: back ∧
      FrameNum.ofPayload sets (span.payload data) = .error fault ∧
      (∃ result, (ofSlices sets adjustment front data last).outcome.result = .ok result) ∧
      (ofSlices sets adjustment spans data last).data
        = (ofSlices sets adjustment front data last).data := by
  induction spans generalizing data last with
  | nil => cases h
  | cons span spans ih =>
      cases hWrite : writeSlice sets adjustment span data with
      | error other =>
          obtain ⟨hData, hResult⟩ := ofSlices_of_error spans last hWrite
          cases hResult.symm.trans h
          exact ⟨[], span, spans, rfl, ofPayload_of_writeSlice hLaid.head hWrite, ⟨_, rfl⟩, hData⟩
      | ok pair =>
          obtain ⟨field, written⟩ := pair
          obtain ⟨hTail, hKeep⟩ := laid_of_writeSlice hWrite hLaid
          obtain ⟨hData, hResult⟩ := ofSlices_of_ok spans last hWrite
          rw [hResult] at h
          obtain ⟨front, faulty, back, rfl, hFault, ⟨result, hDone⟩, hSame⟩ := ih hTail h
          obtain ⟨hFront, hFrontDone⟩ := ofSlices_of_ok front last hWrite
          rw [hKeep faulty (by simp)] at hFault
          exact ⟨span :: front, faulty, back, rfl, hFault, ⟨result, hFrontDone.trans hDone⟩,
            by rw [hData, hSame, hFront]⟩

/-- A packet whose slices cannot be renumbered has a fault in it. -/
theorem inPacket_of_ofSlices {spans : List Nal.Span} {data : Bytes} (hLaid : FrameNum.Laid spans data)
    {last : Nat} {fault : Fault}
    (h : (ofSlices sets adjustment spans data last).outcome.result = .error fault) :
    fault.InPacket := by
  obtain ⟨_, _, _, _, hFault, _⟩ := exists_front_of_error hLaid h
  exact FrameNum.inPacket_of_ofPayload hFault

end Renumbered

end Cadence
