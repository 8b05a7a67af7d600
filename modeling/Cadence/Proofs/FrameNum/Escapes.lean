import Cadence.Proofs.FrameNum.Payloads
import Cadence.Proofs.Nal.EscapePlaces

/-!
What renumbering makes of the slices themselves, which are read without escape bytes. The frame number is
written into the bytes of the payload, so that bytes 00 00 03 can arise or be broken by it, behind the
frame number as well as in front of its end. Where they stand at the same places as before, only the frame
number is replaced in the slice, and nowhere else (`unescape_ofPacket`).
-/

namespace Cadence

open Nal (escape unescape endZeros hasEscape SameEscapes)

namespace FrameNum

variable {sets : ParameterSets} {field : FrameNum}

/-- The bytes up to the end of a frame number lie within the payload, and its bits within them. -/
theorem covered_le {payload : Bytes} (h : ofPayload sets payload = .ok field) :
    field.covered ≤ payload.length ∧ field.bitOffset + field.bitWidth ≤ 8 * field.covered := by
  have hRange := (ofPayload_eq_ok h).2.1
  rw [covered]
  omega

end FrameNum

namespace Nal

variable {front other : Bytes} {offset width value : Nat}

/-- A change of the last bit of the data is a change of the last bits of the data, so that it leaves
the beginning as it is. -/
theorem take_of_overwrite {init : Bytes} {first last byte : UInt8}
    (hWrite : Bits.overwrite (init ++ [first, last]) offset width value = .ok other)
    (hWidth : width ≤ 16) (hByte : other[init.length + 1]? = some byte)
    (hLast : last.toNat.testBit 0 ≠ byte.toNat.testBit 0) : other.take init.length = init := by
  obtain ⟨_, hRange, hLength, _⟩ := Bits.overwrite_eq_ok hWrite
  rw [List.length_append, List.length_cons, List.length_singleton] at hRange hLength
  have hReach : ¬ offset + width ≤ 8 * (init.length + 1) + 7 := by
    intro hBefore
    have hBit := Bits.getElem?_of_overwrite hWrite (.inr hBefore)
    have hPlace : (8 * (init.length + 1) + 7) / 8 = init.length + 1 := by omega
    have hLow : 7 - (8 * (init.length + 1) + 7) % 8 = 0 := by omega
    rw [Bits.getElem?_ofBytes, Bits.getElem?_ofBytes, hPlace, hLow, hByte,
      List.getElem?_append_right (Nat.le_add_right _ _), Nat.add_sub_cancel_left] at hBit
    exact hLast (Option.some.inj hBit).symm
  apply List.ext_getElem?
  intro place
  by_cases hPlace : place < init.length
  · rw [List.getElem?_take_of_lt hPlace,
      Bits.getElem?_congr fun index _ hTill => Bits.getElem?_of_overwrite hWrite (.inl (by omega)),
      List.getElem?_append_left hPlace]
  · rw [List.getElem?_eq_none (by simp; omega), List.getElem?_eq_none (by omega)]

/-- Two zero bytes at the end do not become bytes 3 by a change of so few bits. -/
theorem not_shifted (hWrite : Bits.overwrite front offset width value = .ok other)
    (hPlain : hasEscape front = false) (hEnd : endZeros 0 front = 2) (hWidth : width ≤ 16)
    (first : Bytes) (count : Nat) : other ≠ first ++ 0 :: 0 :: 3 :: List.replicate count 3 := by
  rintro rfl
  obtain ⟨init, rfl⟩ := Nal.exists_append_of_two_le (Nat.le_of_eq hEnd.symm)
  have hLength := (Bits.overwrite_eq_ok hWrite).2.2.1
  simp only [List.length_append, List.length_cons, List.length_nil, List.length_replicate] at hLength
  have hLast : (first ++ 0 :: 0 :: 3 :: List.replicate count 3)[init.length + 1]? = some 3 := by
    have hPlace : init.length + 1 = first.length + (2 + count) := by omega
    rw [hPlace, Nal.getElem?_length_add, ← List.replicate_succ, Nat.add_comm 2]
    simp
  have hInit := take_of_overwrite hWrite hWidth hLast (by decide)
  have hCount : init.length = first.length + (count + 1) := by omega
  rw [hCount, List.take_length_add_append] at hInit
  rw [Nal.endZeros_append] at hEnd
  rcases count with _ | _ | count
  · rw [← hInit, Nal.endZeros_append] at hEnd
    change endZeros 0 first + 1 + 2 = 2 at hEnd
    omega
  · rw [← hInit, Nal.endZeros_append] at hEnd
    change endZeros 0 first + 2 + 2 = 2 at hEnd
    omega
  · rw [← hInit, List.append_assoc, Nal.hasEscape_append first] at hPlain
    · cases hPlain
    · exact (Nal.hasEscape_iff _).mpr ⟨0, rfl, rfl, rfl⟩

end Nal

namespace FrameNum

variable {sets : ParameterSets} {field : FrameNum} {value : Nat} {rbsp written : Bytes}

/-- A number that is written in the payload of a slice replaces that of the slice exactly if the bytes
00 00 03 stand at the same places afterwards. Of wider fields than there are in coded video only one half
is true: zero bytes in front of a byte 3 can move. -/
theorem overwrite_unescape (hField : ofPayload sets (escape rbsp) = .ok field)
    (hWrite : Bits.overwrite (escape rbsp) field.bitOffset field.bitWidth value = .ok written) :
    (SameEscapes (escape rbsp) written →
      Bits.overwrite rbsp field.bitOffset field.bitWidth value = .ok (unescape written)) ∧
    (field.bitWidth ≤ 16 →
      Bits.overwrite rbsp field.bitOffset field.bitWidth value = .ok (unescape written) →
      SameEscapes (escape rbsp) written) := by
  obtain ⟨hCovered, hRange⟩ := covered_le hField
  have hPlain := (ofPayload_eq_ok_iff.mp hField).2
  have hZeros : endZeros 0 ((escape rbsp).take field.covered) ≤ 2 :=
    Nal.endZeros_take_escapeAfter (Nat.zero_le 2) rbsp field.covered
  have hFront : ((escape rbsp).take field.covered).length = field.covered :=
    List.length_take_of_le hCovered
  obtain ⟨front, back, hSplit, hTake⟩ : ∃ front back, escape rbsp = front ++ back ∧
      (escape rbsp).take field.covered = front :=
    ⟨_, _, (List.take_append_drop field.covered _).symm, rfl⟩
  rw [hTake] at hPlain hZeros hFront
  -- The slice begins like its payload, and is changed there.
  have hSlice : rbsp = front ++ Nal.unescapeAfter (endZeros 0 front) back := by
    rw [← Nal.unescape_append hPlain, ← hSplit, Nal.unescape_escape]
  rw [hSplit, Bits.overwrite_append _ _ (hFront ▸ hRange)] at hWrite
  cases hOther : Bits.overwrite front field.bitOffset field.bitWidth value with
  | error fault =>
      rw [hOther] at hWrite
      cases hWrite
  | ok other =>
      rw [hOther] at hWrite
      cases hWrite
      have hLength := (Bits.overwrite_eq_ok hOther).2.2.1
      have hRbsp : Bits.overwrite rbsp field.bitOffset field.bitWidth value
          = .ok (other ++ Nal.unescapeAfter (endZeros 0 front) back) := by
        conv => lhs; rw [hSlice]
        rw [Bits.overwrite_append _ _ (hFront ▸ hRange), hOther]
        rfl
      rw [hRbsp, hSplit, Except.ok.injEq, eq_comm]
      cases hArisen : hasEscape other with
      | false =>
          have hIff := Nal.unescape_append_eq_iff hLength.symm hPlain hArisen back
          exact ⟨hIff.mpr, fun _ => hIff.mp⟩
      | true =>
          refine ⟨fun hSame => absurd hSame
            (Nal.not_sameEscapes_append hLength.symm hPlain hArisen back), fun hWidth hRead => ?_⟩
          obtain ⟨hTwo, first, count, hShape⟩ := Nal.exists_of_unescape_append hArisen hRead
          exact absurd hShape (Nal.not_shifted hOther hPlain (Nat.le_antisymm hZeros hTwo) hWidth _ _)

/-- A number that is read from a payload is that of the slice, at the same place. -/
theorem value_of_escape (hField : ofPayload sets (escape rbsp) = .ok field) :
    field.value = Bits.field rbsp field.bitOffset field.bitWidth := by
  obtain ⟨hCovered, hRange⟩ := covered_le hField
  have hPlain := (ofPayload_eq_ok_iff.mp hField).2
  have hSlice : rbsp = (escape rbsp).take field.covered
      ++ Nal.unescapeAfter (endZeros 0 ((escape rbsp).take field.covered))
        ((escape rbsp).drop field.covered) := by
    rw [← Nal.unescape_append hPlain, List.take_append_drop, Nal.unescape_escape]
  rw [(ofPayload_eq_ok hField).2.2]
  refine Bits.field_congr fun index _ hTill => ?_
  have hLength : (Bits.ofBytes ((escape rbsp).take field.covered)).length = 8 * field.covered := by
    rw [Bits.length_ofBytes, List.length_take_of_le hCovered]
  conv => rhs; rw [hSlice]
  rw [Bits.ofBytes_append, List.getElem?_append_left (by omega), Bits.ofBytes_take,
    List.getElem?_take_of_lt (by omega)]

end FrameNum

namespace Renumbered

variable {sets : ParameterSets} {adjustment : UInt32} {data rbsp : Bytes} {scan : Nal.Scan}
  {last : Nat} {span : Nal.Span}

/-- When a packet is renumbered, the number of a slice is read where it stands in the slice itself. If the
bytes 00 00 03 stand at the same places in the payload afterwards, the number is moved forward in the
slice, and nothing else changes. For numbers of at most 16 bits, this is so only then. -/
theorem unescape_ofPacket (hScan : Nal.scan sets.framing data = .ok scan)
    (h : (ofPacket sets adjustment data).outcome.result = .ok (.done last))
    (hSpan : span ∈ FrameNum.slices scan) (hEscaped : span.payload data = escape rbsp) :
    ∃ field, FrameNum.ofPayload sets (span.payload data) = .ok field ∧
      field.value = Bits.field rbsp field.bitOffset field.bitWidth ∧
      field.adjusted adjustment = (field.value + adjustment.toNat) % 2 ^ field.bitWidth ∧
      (SameEscapes (span.payload data) (span.payload (ofPacket sets adjustment data).data) →
        Bits.overwrite rbsp field.bitOffset field.bitWidth (field.adjusted adjustment)
          = .ok (unescape (span.payload (ofPacket sets adjustment data).data))) ∧
      (field.bitWidth ≤ 16 →
        Bits.overwrite rbsp field.bitOffset field.bitWidth (field.adjusted adjustment)
          = .ok (unescape (span.payload (ofPacket sets adjustment data).data)) →
        SameEscapes (span.payload data) (span.payload (ofPacket sets adjustment data).data)) := by
  obtain ⟨field, hField, hWrite⟩ := payload_ofPacket hScan h hSpan
  refine ⟨field, hField, ?_, FrameNum.adjusted_eq adjustment (FrameNum.ofPayload_eq_ok hField).1, ?_⟩
  · rw [hEscaped] at hField
    exact FrameNum.value_of_escape hField
  · rw [hEscaped] at hField hWrite ⊢
    exact FrameNum.overwrite_unescape hField hWrite

/-- Frame numbers of 16 bits behind start codes. -/
def sampleSets : ParameterSets :=
  (ParameterSets.ofExtradata [0, 0, 0, 1, 0x67, 0x42, 0xC0, 0x1E, 0x8D, 0x68, 0x96, 0x40,
    0, 0, 0, 1, 0x68, 0xCE, 0x3C, 0x80]).result.toOption.get (by decide +kernel)

def sampleSpan (size : Nat) : Nal.Span :=
  ⟨.slice, 3, 4, size⟩

/-- A slice with the number 1 that has an escape byte at its end. -/
def samplePlain : Bytes :=
  [0, 0, 0, 1, 0x61, 0x9A, 0, 2, 0x80, 0, 0, 3, 1]

/-- The escape byte of the payload stays in its place when the number is moved. -/
theorem unescape_ofPacket_samplePlain :
    Nal.scan sampleSets.framing samplePlain = .ok ⟨[sampleSpan 9], false⟩ ∧
      (ofPacket sampleSets 1 samplePlain).outcome.result = .ok (.done 2) ∧
      (sampleSpan 9).payload samplePlain = escape [0x9A, 0, 2, 0x80, 0, 0, 1] ∧
      SameEscapes ((sampleSpan 9).payload samplePlain)
        ((sampleSpan 9).payload (ofPacket sampleSets 1 samplePlain).data) := by
  have hScan : Nal.scan sampleSets.framing samplePlain = .ok ⟨[sampleSpan 9], false⟩ := by
    decide +kernel
  have hDone : (ofPacket sampleSets 1 samplePlain).outcome.result = .ok (.done 2) := by
    decide +kernel
  have hEscaped : (sampleSpan 9).payload samplePlain = escape [0x9A, 0, 2, 0x80, 0, 0, 1] := by
    decide
  have hField : FrameNum.ofPayload sampleSets ((sampleSpan 9).payload samplePlain) = .ok ⟨1, 7, 16⟩ := by
    decide +kernel
  have hWritten : Bits.overwrite [0x9A, 0, 2, 0x80, 0, 0, 1] 7 16 2
      = .ok (unescape ((sampleSpan 9).payload (ofPacket sampleSets 1 samplePlain).data)) := by
    decide +kernel
  obtain ⟨field, hFound, _, _, _, hSame⟩ :=
    unescape_ofPacket hScan hDone (by decide) hEscaped
  cases hField.symm.trans hFound
  exact ⟨hScan, hDone, hEscaped, hSame (by decide) hWritten⟩

/-- A slice with the number 0, whose zero bits begin a run that is escaped behind it. -/
def sampleZeros : Bytes :=
  [0, 0, 0, 1, 0x61, 0x9A, 0, 0, 3, 2, 0x80]

/-- With the number 1 the escape byte is none any more, and becomes part of the slice. -/
theorem unescape_ofPacket_sampleZeros :
    Nal.scan sampleSets.framing sampleZeros = .ok ⟨[sampleSpan 7], false⟩ ∧
      (sampleSpan 7).payload sampleZeros = escape [0x9A, 0, 0, 2, 0x80] ∧
      (ofPacket sampleSets 1 sampleZeros).outcome.result = .ok (.done 1) ∧
      FrameNum.ofPayload sampleSets ((sampleSpan 7).payload sampleZeros) = .ok ⟨0, 7, 16⟩ ∧
      Bits.overwrite [0x9A, 0, 0, 2, 0x80] 7 16 1 = .ok [0x9A, 0, 2, 2, 0x80] ∧
      unescape ((sampleSpan 7).payload (ofPacket sampleSets 1 sampleZeros).data)
        = [0x9A, 0, 2, 3, 2, 0x80] := by
  decide +kernel

end Renumbered

end Cadence
