import Cadence.Proofs.FrameNum.Escapes
import Cadence.Proofs.FrameNum.Headers
import Cadence.Proofs.Nal.Rescan

/-!
Reading a packet that has been renumbered. The same units are found in it exactly if the slices are still
closed, and then the number that was reported is read from it exactly if no bytes 00 00 03 have arisen in
front of the end of a frame number (`reread_ofPacket`).
-/

namespace Cadence

/-- The units of a packet are these. -/
def Nal.Locates (framing : Framing) (data : Bytes) (spans : List Span) : Prop :=
  ∃ result, scan framing data = .ok result ∧ result.spans = spans

namespace Renumbered

variable {sets : ParameterSets} {adjustment : UInt32} {data : Bytes} {scan : Nal.Scan} {last : Nat}

/-- Every slice is a unit of the layout. -/
theorem exists_extent (hScan : Nal.scan sets.framing data = .ok scan) {span : Nal.Span}
    (hSpan : span ∈ FrameNum.slices scan) :
    ∃ extent ∈ (Nal.layout sets.framing data).extents, span = .ofExtent extent := by
  obtain ⟨kept, hKept, hSpans⟩ := Nal.exists_sublist_of_select hScan
  have hMem := (List.mem_filter.mp hSpan).1
  rw [hSpans] at hMem
  obtain ⟨extent, hExtent, rfl⟩ := List.mem_map.mp hMem
  exact ⟨extent, hKept.subset hExtent, rfl⟩

/-- Renumbering changes bytes of units only, and none of a header. -/
theorem sameFrom_ofPacket (hScan : Nal.scan sets.framing data = .ok scan)
    (h : (ofPacket sets adjustment data).outcome.result = .ok (.done last)) :
    Nal.SameFrom data (ofPacket sets adjustment data).data 0 (Nal.layout sets.framing data).extents := by
  intro place _ hOutside
  refine (getElem?_ofPacket hScan h fun span hSpan hIn => ?_).symm
  obtain ⟨extent, hExtent, rfl⟩ := exists_extent hScan hSpan
  exact hOutside extent hExtent hIn

/-- Renumbering changes no unit but the slices. -/
theorem untouched_ofPacket (hScan : Nal.scan sets.framing data = .ok scan)
    (h : (ofPacket sets adjustment data).outcome.result = .ok (.done last)) {extent : Nal.Extent}
    (hExtent : extent ∈ (Nal.layout sets.framing data).extents)
    (hOther : .ofExtent extent ∉ FrameNum.slices scan) :
    Nal.Untouched data (ofPacket sets adjustment data).data extent := by
  intro place hFrom hTill
  refine (getElem?_ofPacket hScan h fun span hSpan hIn => ?_).symm
  obtain ⟨slice, hSlice, rfl⟩ := exists_extent hScan hSpan
  have hNe : extent ≠ slice := fun hSame => hOther (hSame ▸ hSpan)
  have hApart := (Nal.laid_layout sets.framing data).disjoint hExtent hSlice hNe
  have hStart : slice.offset + 1 ≤ place := hIn.1
  have hEnd : place < slice.offset + slice.size := hIn.2
  omega

/-- The number of a slice is read back unless bytes 00 00 03 are now in front of its end. -/
theorem ofSlice_ofPacket (hScan : Nal.scan sets.framing data = .ok scan)
    (h : (ofPacket sets adjustment data).outcome.result = .ok (.done last)) {span : Nal.Span}
    {field : FrameNum} (hSpan : span ∈ FrameNum.slices scan)
    (hField : FrameNum.ofPayload sets (span.payload data) = .ok field) :
    FrameNum.ofSlice sets (ofPacket sets adjustment data).data span
      = if Nal.hasEscape ((span.payload (ofPacket sets adjustment data).data).take field.covered)
        then .error .escapedFrameNum else .ok (field.adjusted adjustment) := by
  obtain ⟨found, hFound, hWrite⟩ := payload_ofPacket hScan h hSpan
  cases hField.symm.trans hFound
  have hIdr := (ofPacket_eq_done hScan h).2.1 span hSpan
  have hRead := FrameNum.ofPayload_of_overwrite hField hWrite
  have hFits : field.adjusted adjustment % 2 ^ field.bitWidth = field.adjusted adjustment := by
    rw [FrameNum.adjusted_eq adjustment (FrameNum.ofPayload_eq_ok hField).1, Nat.mod_mod]
  rw [FrameNum.ofSlice, if_neg hIdr, hRead, hFits]
  split <;> rfl

/-- Behind start codes the same units are found exactly if the slices are still closed, and behind length
fields they are found in any case. -/
theorem locates_ofPacket_iff (hScan : Nal.scan sets.framing data = .ok scan)
    (h : (ofPacket sets adjustment data).outcome.result = .ok (.done last)) :
    Nal.Locates sets.framing (ofPacket sets adjustment data).data scan.spans ↔
      (sets.framing = .annexB →
        ∀ span ∈ FrameNum.slices scan, Nal.Closed (ofPacket sets adjustment data).data span) := by
  constructor
  · rintro ⟨found, hFound, hSpans⟩ hAnnexB span hSpan
    rw [hAnnexB] at hFound
    exact Nal.closed_of_scan hFound span (hSpans ▸ (List.mem_filter.mp hSpan).1)
  · intro hClosed
    have hLayout := Nal.layout_congr (length_ofPacket hScan h).symm (sameFrom_ofPacket hScan h)
      fun hAnnexB extent hExtent => by
        by_cases hSlice : .ofExtent extent ∈ FrameNum.slices scan
        · exact .inl (hClosed hAnnexB _ hSlice)
        · exact .inr (untouched_ofPacket hScan h hExtent hSlice)
    refine ⟨scan, ?_, rfl⟩
    rw [Nal.scan, hLayout]
    exact hScan

/-- From the slices of the packet as it was, the number that was reported is read exactly if none of them
has an escape byte in front of the end of its number. -/
theorem ofSlices_ofPacket_iff (hScan : Nal.scan sets.framing data = .ok scan)
    (h : (ofPacket sets adjustment data).outcome.result = .ok (.done last)) :
    FrameNum.ofSlices sets (ofPacket sets adjustment data).data (FrameNum.slices scan) 0 = .ok last ↔
      ∀ span ∈ FrameNum.slices scan, ∀ field,
        FrameNum.ofPayload sets (span.payload data) = .ok field →
          Nal.hasEscape ((span.payload (ofPacket sets adjustment data).data).take field.covered)
            = false := by
  have hSome := (ofPacket_eq_done hScan h).1
  constructor
  · intro hRead span hSpan field hField
    obtain ⟨value, hValue⟩ := (FrameNum.ofSlices_eq_ok hRead).1 span hSpan
    rw [ofSlice_ofPacket hScan h hSpan hField] at hValue
    split at hValue
    case isTrue => cases hValue
    case isFalse hPlain => exact Bool.not_eq_true _ |>.mp hPlain
  · intro hPlain
    have hNumber {span : Nal.Span} (hSpan : span ∈ FrameNum.slices scan) :
        ∃ field, FrameNum.ofPayload sets (span.payload data) = .ok field ∧
          FrameNum.ofSlice sets (ofPacket sets adjustment data).data span
            = .ok (field.adjusted adjustment) := by
      obtain ⟨field, hField, _⟩ := payload_ofPacket hScan h hSpan
      refine ⟨field, hField, ?_⟩
      rw [ofSlice_ofPacket hScan h hSpan hField, hPlain span hSpan field hField]
      rfl
    cases hRead : FrameNum.ofSlices sets (ofPacket sets adjustment data).data
        (FrameNum.slices scan) 0 with
    | error fault =>
        obtain ⟨span, hSpan, hFault⟩ := FrameNum.ofSlices_eq_error hRead
        obtain ⟨field, _, hValue⟩ := hNumber hSpan
        cases hValue.symm.trans hFault
    | ok number =>
        have hLast := List.getLast?_eq_some_getLast hSome
        obtain ⟨field, hField, hValue⟩ := hNumber (List.getLast_mem hSome)
        cases hValue.symm.trans ((FrameNum.ofSlices_eq_ok hRead).2.2 _ hLast)
        rw [last_ofPacket hScan h hLast hField]

/-- In a packet that has been renumbered the same units are found exactly if, behind start codes, the
slices are still closed: no start code has arisen in one, and no zero byte at its end that is taken for
part of the start code behind it. If they are found, the number that was reported is the number of the
packet exactly if no bytes 00 00 03 have arisen in front of the end of a frame number. -/
theorem reread_ofPacket (hScan : Nal.scan sets.framing data = .ok scan)
    (h : (ofPacket sets adjustment data).outcome.result = .ok (.done last)) :
    (Nal.Locates sets.framing (ofPacket sets adjustment data).data scan.spans ↔
      (sets.framing = .annexB →
        ∀ span ∈ FrameNum.slices scan, Nal.Closed (ofPacket sets adjustment data).data span)) ∧
    (Nal.Locates sets.framing (ofPacket sets adjustment data).data scan.spans →
      ((FrameNum.ofPacket sets (ofPacket sets adjustment data).data).result = .ok last ↔
        ∀ span ∈ FrameNum.slices scan, ∀ field,
          FrameNum.ofPayload sets (span.payload data) = .ok field →
            Nal.hasEscape ((span.payload (ofPacket sets adjustment data).data).take field.covered)
              = false)) := by
  refine ⟨locates_ofPacket_iff hScan h, ?_⟩
  rintro ⟨found, hFound, hSpans⟩
  have hSlices : FrameNum.slices found = FrameNum.slices scan := by
    rw [FrameNum.slices, hSpans, FrameNum.slices]
  rw [FrameNum.result_ofPacket, hFound, ← ofSlices_ofPacket_iff hScan h, ← hSlices]
  rfl

/-- Two slices with the numbers 1 and 2. -/
def sampleTwo : Bytes :=
  [0, 0, 0, 1, 0x61, 0x9A, 0, 2, 0x80, 0, 0, 0, 1, 0x41, 0x9A, 0, 5, 0x80]

/-- Two slices are moved by three, and are found and read again. -/
theorem reread_ofPacket_sampleTwo :
    Nal.scan sampleSets.framing sampleTwo = .ok ⟨[⟨.slice, 3, 4, 5⟩, ⟨.slice, 2, 13, 5⟩], false⟩ ∧
      (ofPacket sampleSets 3 sampleTwo).outcome.result = .ok (.done 5) ∧
      (∀ span ∈ [⟨.slice, 3, 4, 5⟩, ⟨.slice, 2, 13, 5⟩],
        Nal.Closed (ofPacket sampleSets 3 sampleTwo).data span) ∧
      (FrameNum.ofPacket sampleSets (ofPacket sampleSets 3 sampleTwo).data).result = .ok 5 := by
  have hScan : Nal.scan sampleSets.framing sampleTwo
      = .ok ⟨[⟨.slice, 3, 4, 5⟩, ⟨.slice, 2, 13, 5⟩], false⟩ := by decide +kernel
  have hDone : (ofPacket sampleSets 3 sampleTwo).outcome.result = .ok (.done 5) := by decide +kernel
  have hFound : Nal.Locates sampleSets.framing (ofPacket sampleSets 3 sampleTwo).data
      [⟨.slice, 3, 4, 5⟩, ⟨.slice, 2, 13, 5⟩] :=
    ⟨⟨_, false⟩, by decide +kernel, rfl⟩
  obtain ⟨hClosed, hRead⟩ := reread_ofPacket hScan hDone
  refine ⟨hScan, hDone, hClosed.mp hFound (by decide +kernel), (hRead hFound).mpr ?_⟩
  intro span hSpan field hField
  have hCovered : field.covered = 3 := by
    rcases List.mem_pair.mp hSpan with rfl | rfl
    · cases hField.symm.trans (show _ = .ok ⟨1, 7, 16⟩ by decide +kernel)
      rfl
    · cases hField.symm.trans (show _ = .ok ⟨2, 7, 16⟩ by decide +kernel)
      rfl
  rw [hCovered]
  rcases List.mem_pair.mp hSpan with rfl | rfl
  · decide +kernel
  · decide +kernel

/-- A slice with the number 1 and a byte 1 behind it. -/
def sampleCode : Bytes :=
  [0, 0, 0, 1, 0x61, 0x9A, 0, 2, 1, 0x80]

/-- With the number 0 a start code arises behind the first byte of the payload, and the slice ends there. -/
theorem reread_ofPacket_sampleCode :
    Nal.scan sampleSets.framing sampleCode = .ok ⟨[sampleSpan 6], false⟩ ∧
      (ofPacket sampleSets 65535 sampleCode).outcome.result = .ok (.done 0) ∧
      Nal.scan sampleSets.framing (ofPacket sampleSets 65535 sampleCode).data
        = .ok ⟨[sampleSpan 2], false⟩ ∧
      (FrameNum.ofPacket sampleSets (ofPacket sampleSets 65535 sampleCode).data).result
        = .error .endOfData := by
  decide +kernel

end Renumbered

end Cadence
