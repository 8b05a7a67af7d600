import Cadence.Proofs.FrameNum.Escapes
import Cadence.Proofs.FrameNum.Headers

/-!
Frame numbers are read without taking escape bytes out first. That is sound: a frame number is read from a
payload exactly if it is read, with the same place and width, from the payload without escape bytes, and none
of these bytes was in front of its end (`ofPayload_iff_unescape`).
-/

namespace Cadence

namespace FrameNum

open BitReader
open Nal (endZeros hasEscape unescape unescapeAfter)

variable {sets : ParameterSets} {payload other : Bytes} {field : FrameNum}

/-- What stands behind the end of a frame number has no part in reading it. -/
theorem ofPayload_of_take (h : ofPayload sets payload = .ok field)
    (hSame : other.take field.covered = payload.take field.covered) :
    ofPayload sets other = .ok field := by
  obtain ⟨⟨s, hRead⟩, hPlain⟩ := ofPayload_eq_ok_iff.mp h
  obtain ⟨hWidth, hEnd, hValue⟩ := ofPayload_eq_ok h
  obtain ⟨hCovered, hRange⟩ := covered_le h
  obtain ⟨lead, back, hLead, hRest, hOffset⟩ := lead_of_read hRead
  have hPlace : field.bitOffset = lead.length := hOffset.trans (Nat.zero_add _)
  rw [rest_ofBytes] at hRest
  have hNumber : (back.take field.bitWidth).length = field.bitWidth := by
    have hLength := congrArg List.length hRest
    rw [Bits.length_ofBytes, List.length_append] at hLength
    rw [List.length_take]
    omega
  -- The bits up to the end of the field are the same in both.
  have hBits : (Bits.ofBytes other).take (lead.length + field.bitWidth)
      = lead ++ back.take field.bitWidth := by
    have hFront := congrArg (fun front => (Bits.ofBytes front).take (lead.length + field.bitWidth)) hSame
    simp only [Bits.ofBytes_take, List.take_take] at hFront
    rw [Nat.min_eq_left (by omega)] at hFront
    rw [hFront, hRest, List.take_length_add_append]
  have hOther : Bits.ofBytes other = lead ++ (back.take field.bitWidth
      ++ (Bits.ofBytes other).drop (lead.length + field.bitWidth)) := by
    rw [← List.append_assoc, ← hBits, List.take_append_drop]
  have hSameValue : Bits.toNat (back.take field.bitWidth) = field.value := by
    rw [hValue, Bits.field, hRest, hPlace, List.drop_left]
  have hFound := ofPayload_of_lead (hNumber.symm ▸ hLead) (hNumber.symm ▸ hWidth) hOther
    (by rw [hNumber, ← hPlace]; exact hSame ▸ hPlain)
  rwa [hSameValue, hNumber, ← hPlace] at hFound

/-- Removing escape bytes leaves what is in front of the first one as it is. -/
theorem take_unescape {count : Nat} (h : hasEscape (payload.take count) = false)
    (hCount : count ≤ payload.length) :
    (unescape payload).take count = payload.take count := by
  have hSplit : unescape payload = payload.take count
      ++ unescapeAfter (endZeros 0 (payload.take count)) (payload.drop count) := by
    rw [← Nal.unescape_append h, List.take_append_drop]
  rw [hSplit, List.take_left' (List.length_take_of_le hCount)]

/-- A frame number is read from the bytes of a payload exactly if the same number is read at the same place
once escape bytes have been removed, and no escape byte is in front of the end of the field. -/
theorem ofPayload_iff_unescape :
    ofPayload sets payload = .ok field ↔
      ofPayload sets (unescape payload) = .ok field ∧
        hasEscape (payload.take field.covered) = false := by
  constructor
  · intro h
    have hPlain := (ofPayload_eq_ok_iff.mp h).2
    exact ⟨ofPayload_of_take h (take_unescape hPlain (covered_le h).1), hPlain⟩
  · rintro ⟨h, hPlain⟩
    have hCovered := (covered_le h).1
    rcases Nat.lt_or_ge payload.length field.covered with hShort | hLong
    · -- a payload that ends in front of the end of the field has no escape byte at all
      have hWhole : payload.take field.covered = payload := List.take_of_length_le hShort.le
      rw [hWhole] at hPlain
      have hSame : unescape payload = payload := by
        have hNone := Nal.unescape_append hPlain []
        rwa [List.append_nil, unescapeAfter, List.append_nil] at hNone
      rwa [hSame] at h
    · exact ofPayload_of_take h (take_unescape hPlain hLong).symm

/-- The escape byte may be the first one behind the field. -/
example : ofPayload Renumbered.sampleSets [0x9A, 0, 0, 3, 1] = .ok ⟨0, 7, 16⟩ ∧
    ofPayload Renumbered.sampleSets [0x9A, 0, 0, 1] = .ok ⟨0, 7, 16⟩ ∧
    unescape [0x9A, 0, 0, 3, 1] = [0x9A, 0, 0, 1] := by decide +kernel

end FrameNum

end Cadence
