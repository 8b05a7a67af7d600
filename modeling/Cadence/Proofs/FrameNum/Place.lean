import Cadence.FrameNum
import Cadence.Proofs.Bits.Overwriting
import Cadence.Proofs.Bits.Reading
import Cadence.Proofs.Nal.Extents
import Cadence.Proofs.Outcome

/-!
Where the frame numbers of a packet lie. The number that is read from a slice header is the number in
the bits of its field, and the field lies within its slice (`ofPayload_field`), so that the fields of
different slices do not overlap.
-/

namespace Cadence.FrameNum

open BitReader

/-- The number of bits in a packet that precede the frame number of one of its slices. -/
def place (field : FrameNum) (span : Nal.Span) : Nat :=
  8 * span.payloadStart + field.bitOffset

/-- A bit of a packet belongs to the frame number of one of some slices. -/
def Covers (sets : ParameterSets) (data : Bytes) (spans : List Nal.Span) (index : Nat) : Prop :=
  ∃ span ∈ spans, ∃ field, ofPayload sets (span.payload data) = .ok field ∧
    field.place span ≤ index ∧ index < field.place span + field.bitWidth

/-- A header that is read up to the frame number ends with the bits of the number. -/
theorem read_eq_ok {sets : ParameterSets} {r s : BitReader} {field : FrameNum}
    (h : read sets r = .ok field s) (hWithin : r.Within) :
    field.bitWidth ≤ 32 ∧ field.bitOffset + field.bitWidth ≤ 8 * r.data.size ∧
      field.value = Bits.field r.data.toList field.bitOffset field.bitWidth := by
  have steady : Read.Steady (fun _ => True) readUe := .readUe trivial trivial
  obtain ⟨_, s₁, hTwo, h⟩ := bind_eq_ok.mp h
  obtain ⟨ppsId, s₂, hPps, h⟩ := bind_eq_ok.mp h
  have hFollows : s₂.Follows r :=
    (steady.ok _ _ _ hPps).trans ((steady.skipMany 2).ok _ _ _ hTwo)
  dsimp only at h
  split at h
  case isTrue => cases h
  case isFalse =>
    cases hActive : sets.active ppsId with
    | error fault =>
        rw [hActive] at h
        cases h
    | ok pair =>
        rw [hActive] at h
        obtain ⟨_, _, hSps, h⟩ := bind_eq_ok.mp h
        cases hSps
        obtain ⟨_, _, hGet, h⟩ := bind_eq_ok.mp h
        cases hGet
        obtain ⟨value, _, hBits, h⟩ := bind_eq_ok.mp h
        cases h
        obtain ⟨hWidth, hLeft, _, hValue⟩ := readBits_eq_ok hBits
        have hCursor : s₂.position ≤ 8 * s₂.data.size := hFollows.within hWithin
        rw [left, hFollows.data] at hLeft
        rw [hFollows.data] at hCursor
        refine ⟨hWidth, ?_, ?_⟩
        · show s₂.position + pair.2.log2MaxFrameNum ≤ 8 * r.data.size
          omega
        · rw [← hFollows.data]
          exact hValue (hFollows.within hWithin)

/-- A frame number is read from a payload exactly if it is read and no escape byte is in front of its
end. -/
theorem ofPayload_eq_ok_iff {sets : ParameterSets} {payload : Bytes} {field : FrameNum} :
    ofPayload sets payload = .ok field ↔
      (∃ s, read sets (BitReader.ofBytes payload) = .ok field s) ∧
        Nal.hasEscape (payload.take field.covered) = false := by
  rw [ofPayload, except_bind_eq_ok]
  simp only [Read.value?_eq_ok]
  constructor
  · rintro ⟨found, hRead, h⟩
    split at h
    case isTrue => cases h
    case isFalse hPlain =>
      cases h
      exact ⟨hRead, Bool.not_eq_true _ |>.mp hPlain⟩
  · rintro ⟨hRead, hPlain⟩
    refine ⟨field, hRead, ?_⟩
    rw [hPlain]
    rfl

/-- The frame number of a slice is the number in its field, which lies in the payload. -/
theorem ofPayload_eq_ok {sets : ParameterSets} {payload : Bytes} {field : FrameNum}
    (h : ofPayload sets payload = .ok field) :
    field.bitWidth ≤ 32 ∧ field.bitOffset + field.bitWidth ≤ 8 * payload.length ∧
      field.value = Bits.field payload field.bitOffset field.bitWidth := by
  obtain ⟨⟨s, hRead⟩, _⟩ := ofPayload_eq_ok_iff.mp h
  simpa [BitReader.ofBytes] using read_eq_ok hRead (Nat.zero_le _)

/-- A frame number lies within the payload of its slice, and its value is that of its bits. -/
theorem ofPayload_field {sets : ParameterSets} {data : Bytes} {span : Nal.Span} {field : FrameNum}
    (hSpan : span.Within data) (h : ofPayload sets (span.payload data) = .ok field) :
    field.bitWidth ≤ 32 ∧ 8 * span.payloadStart ≤ field.place span ∧
      field.place span + field.bitWidth ≤ 8 * span.payloadEnd ∧
      field.value = Bits.field data (field.place span) field.bitWidth := by
  obtain ⟨hWidth, hRange, hValue⟩ := ofPayload_eq_ok h
  have hLength : (span.payload data).length ≤ span.size - 1 := by
    rw [Nal.Span.payload]
    exact List.length_take_le _ _
  have hSize := hSpan.1
  refine ⟨hWidth, Nat.le_add_right _ _, ?_, ?_⟩
  · simp only [place, Nal.Span.payloadStart, Nal.Span.payloadEnd]
    omega
  · rw [hValue, Nal.Span.payload, Bits.field_piece _ (by omega), place]

/-- Writing a field in the payload writes it in the packet, between what is in front of the payload and
what follows it. -/
theorem overwrite_payload {data : Bytes} {span : Nal.Span} {field : FrameNum} (value : Nat)
    (hSpan : span.Within data) (hWidth : field.bitWidth ≤ 32)
    (hRange : field.bitOffset + field.bitWidth ≤ 8 * (span.payload data).length) :
    Bits.overwrite data (field.place span) field.bitWidth value
      = (Bits.overwrite (span.payload data) field.bitOffset field.bitWidth value).map
          fun written => data.take span.payloadStart ++ written ++ data.drop span.payloadEnd := by
  have hStart : (data.take span.payloadStart).length = span.payloadStart := by
    obtain ⟨hPos, hEnd⟩ : 0 < span.size ∧ span.offset + span.size ≤ data.length := hSpan
    rw [List.length_take, Nal.Span.payloadStart]
    omega
  have hPlace : field.place span
      = (Bits.ofBytes (data.take span.payloadStart)).length + field.bitOffset := by
    rw [Bits.length_ofBytes, hStart, place]
  have hLength := congrArg List.length (Nal.Span.take_payload_drop hSpan)
  rw [List.length_append, List.length_append, hStart] at hLength
  have hWithin : field.place span + field.bitWidth ≤ 8 * data.length := by
    rw [place]
    omega
  have hRun : (Bits.ofNat field.bitWidth value).length = field.bitWidth := Bits.length_ofNat _ _
  rw [Bits.overwrite_eq_setRun (by omega) (by omega), Bits.overwrite_eq_setRun (by omega) (by omega)]
  refine congrArg Except.ok (Bits.ofBytes_injective ?_)
  rw [Bits.ofBytes_append, Bits.ofBytes_append,
    Bits.ofBytes_setRun data _ _ (by rw [hRun]; exact hWithin),
    Bits.ofBytes_setRun (span.payload data) _ _ (by rw [hRun]; exact hRange), hPlace,
    ← Bits.splice_append (by rw [hRun, Bits.length_ofBytes]; exact hRange), ← Bits.ofBytes_append,
    ← Bits.ofBytes_append, Nal.Span.take_payload_drop hSpan]

/-- The renumbered value, for all widths that can be read. -/
theorem adjusted_eq {field : FrameNum} (adjustment : UInt32) (h : field.bitWidth ≤ 32) :
    field.adjusted adjustment = (field.value + adjustment.toNat) % 2 ^ field.bitWidth := by
  have hPower : 2 ^ field.bitWidth ≤ UInt32.size := Nat.pow_le_pow_right Nat.two_pos h
  have hLess := Nat.mod_lt (field.value + adjustment.toNat) (Nat.two_pow_pos field.bitWidth)
  rw [adjusted, Nat.one_shiftLeft, Nat.mod_eq_of_lt (Nat.lt_of_lt_of_le hLess hPower)]

/-- The frame number of each of some slices, the last of which counts. -/
def ofSlices (sets : ParameterSets) (data : Bytes) (spans : List Nal.Span) (first : Nat) :
    Except Fault Nat :=
  spans.foldlM (fun _ span => ofSlice sets data span) first

theorem result_ofPacket (sets : ParameterSets) (data : Bytes) :
    (ofPacket sets data).result
      = Nal.scan sets.framing data >>= fun scan => ofSlices sets data (slices scan) 0 := by
  rw [ofPacket, Outcome.result_bind]
  rfl

/-- All slices have to be readable for the last one to count. -/
theorem ofSlices_eq_ok {sets : ParameterSets} {data : Bytes} {spans : List Nal.Span}
    {first number : Nat} (h : ofSlices sets data spans first = .ok number) :
    (∀ span ∈ spans, ∃ value, ofSlice sets data span = .ok value) ∧
      (spans = [] → number = first) ∧
      ∀ span, spans.getLast? = some span → ofSlice sets data span = .ok number := by
  induction spans generalizing first with
  | nil =>
      cases h
      exact ⟨by simp, fun _ => rfl, by simp⟩
  | cons span spans ih =>
      rw [ofSlices, List.foldlM_cons] at h
      obtain ⟨value, hValue, h⟩ := except_bind_eq_ok.mp h
      obtain ⟨hAll, hNone, hLast⟩ := ih h
      refine ⟨?_, by simp, ?_⟩
      · rintro other (_ | ⟨_, hOther⟩)
        · exact ⟨value, hValue⟩
        · exact hAll other hOther
      · intro other hOther
        cases spans with
        | nil =>
            obtain rfl : span = other := by simpa using hOther
            rw [hValue, hNone rfl]
        | cons next spans => exact hLast other (by rwa [List.getLast?_cons_cons] at hOther)

/-- A packet cannot be read because one of its slices cannot. -/
theorem ofSlices_eq_error {sets : ParameterSets} {data : Bytes} {spans : List Nal.Span}
    {first : Nat} {fault : Fault} (h : ofSlices sets data spans first = .error fault) :
    ∃ span ∈ spans, ofSlice sets data span = .error fault := by
  induction spans generalizing first with
  | nil => cases h
  | cons span spans ih =>
      rw [ofSlices, List.foldlM_cons] at h
      rcases except_bind_eq_error.mp h with h | ⟨value, _, h⟩
      · exact ⟨span, List.mem_cons_self, h⟩
      · obtain ⟨other, hOther, hFault⟩ := ih h
        exact ⟨other, List.mem_cons_of_mem _ hOther, hFault⟩

end Cadence.FrameNum
