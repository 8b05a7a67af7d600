import Cadence.Proofs.Bits.CutWords
import Cadence.Proofs.FrameNum.Place

/-!
Slice headers up to the frame number. A number is read behind three code words, the last of which names
parameter sets (`lead_of_read`), and is read there whatever it is (`read_of_lead`). So a number that is
written is read back, unless bytes 00 00 03 arise in front of its end (`ofPayload_of_overwrite`).
-/

namespace Cadence

namespace FrameNum

open BitReader

variable {sets : ParameterSets} {field : FrameNum}

/-- What is read behind the id of the picture parameter set. -/
def readNumber (sets : ParameterSets) (ppsId : Nat) : Read FrameNum := do
  if ppsId > 255 then throw (.slicePpsId ppsId)
  let sps ← match sets.active ppsId with
    | .ok (_, sps) => pure sps
    | .error fault => throw fault
  let bitOffset := (← get).position
  let value ← readBits sps.log2MaxFrameNum
  return { value, bitOffset, bitWidth := sps.log2MaxFrameNum }

/-- A slice header is read in two parts: three codes, and the number that the last of them leads
to. -/
theorem read_eq (sets : ParameterSets) :
    read sets = (do
      let _ ← readUe
      let _ ← readUe
      let ppsId ← readUe
      readNumber sets ppsId) := by
  rw [read]
  simp only [skipMany, bind_assoc, pure_bind]
  rfl

/-- The bits are a slice header up to a frame number of this width. -/
def Lead (sets : ParameterSets) (width : Nat) (bits : List Bool) : Prop :=
  ∃ firstMb sliceType ppsId pps sps, firstMb + 1 < 2 ^ 32 ∧ sliceType + 1 < 2 ^ 32 ∧ ¬ ppsId > 255 ∧
    sets.active ppsId = .ok (pps, sps) ∧ sps.log2MaxFrameNum = width ∧
    bits = Bits.ue firstMb ++ (Bits.ue sliceType ++ Bits.ue ppsId)

/-- What is read behind the id of the picture parameter set is the number that stands there. -/
theorem readNumber_of_rest {ppsId : Nat} {pps : Pps} {sps : Sps} {r : BitReader}
    {number back : List Bool} (hId : ¬ ppsId > 255) (hActive : sets.active ppsId = .ok (pps, sps))
    (hNumber : sps.log2MaxFrameNum = number.length) (hWidth : number.length ≤ 32)
    (h : r.rest = number ++ back) :
    ∃ s, readNumber sets ppsId r = .ok ⟨Bits.toNat number, r.position, number.length⟩ s := by
  have hValue := Reads.readBits hWidth r back h
  rw [← hNumber] at hValue ⊢
  rw [readNumber, if_neg hId, hActive]
  exact ⟨_, bind_eq_ok.mpr ⟨sps, r, rfl, bind_eq_ok.mpr ⟨r, r, rfl,
    bind_eq_ok.mpr ⟨Bits.toNat number, _, hValue, rfl⟩⟩⟩⟩

theorem readNumber_eq_ok {ppsId : Nat} {r s : BitReader} (h : readNumber sets ppsId r = .ok field s) :
    ¬ ppsId > 255 ∧ field.bitOffset = r.position ∧
      ∃ pps sps, sets.active ppsId = .ok (pps, sps) ∧ sps.log2MaxFrameNum = field.bitWidth := by
  unfold readNumber at h
  split at h
  case isTrue => cases h
  case isFalse hId =>
    cases hActive : sets.active ppsId with
    | error fault =>
        rw [hActive] at h
        cases h
    | ok pair =>
        rw [hActive] at h
        obtain ⟨_, _, hSps, h⟩ := bind_eq_ok.mp h
        cases hSps
        obtain ⟨_, _, hGet, h⟩ := bind_eq_ok.mp h
        cases hGet
        obtain ⟨_, _, _, h⟩ := bind_eq_ok.mp h
        cases h
        exact ⟨hId, rfl, pair.1, pair.2, rfl, rfl⟩

/-- Behind the beginning of a header the number is read, whatever it is. -/
theorem read_of_lead {r : BitReader} {lead number back : List Bool}
    (hLead : Lead sets number.length lead) (hWidth : number.length ≤ 32)
    (h : r.rest = lead ++ (number ++ back)) :
    ∃ s, read sets r = .ok ⟨Bits.toNat number, r.position + lead.length, number.length⟩ s := by
  obtain ⟨firstMb, sliceType, ppsId, pps, sps, hFirst, hType, hId, hActive, hNumber, rfl⟩ := hLead
  have hReads : Reads (do let _ ← readUe; let _ ← readUe; readUe)
      (Bits.ue firstMb ++ (Bits.ue sliceType ++ Bits.ue ppsId)) ppsId :=
    (Reads.readUe hFirst).bind ((Reads.readUe hType).bind (Reads.readUe (by omega)))
  have hSplit : read sets = (do let _ ← readUe; let _ ← readUe; readUe) >>= readNumber sets := by
    rw [read_eq]
    simp only [bind_assoc]
  obtain ⟨s, hNumber⟩ := readNumber_of_rest hId hActive hNumber hWidth (rest_advance h)
  rw [hSplit]
  exact ⟨s, bind_eq_ok.mpr ⟨ppsId, _, hReads r _ h, hNumber⟩⟩

/-- Without escape bytes in front of its end the number is read from a payload. -/
theorem ofPayload_of_lead {payload : Bytes} {lead number back : List Bool}
    (hLead : Lead sets number.length lead) (hWidth : number.length ≤ 32)
    (hBits : Bits.ofBytes payload = lead ++ (number ++ back))
    (hPlain : Nal.hasEscape (payload.take ((lead.length + number.length + 7) / 8)) = false) :
    ofPayload sets payload = .ok ⟨Bits.toNat number, lead.length, number.length⟩ := by
  obtain ⟨s, hRead⟩ := read_of_lead hLead hWidth ((rest_ofBytes payload).trans hBits)
  have hStart : (ofBytes payload).position + lead.length = lead.length := Nat.zero_add _
  rw [hStart] at hRead
  exact ofPayload_eq_ok_iff.mpr ⟨⟨s, hRead⟩, hPlain⟩

/-- A number that is read stands behind the beginning of a header. -/
theorem lead_of_read {r s : BitReader} (h : read sets r = .ok field s) :
    ∃ lead back, Lead sets field.bitWidth lead ∧ r.rest = lead ++ back ∧
      field.bitOffset = r.position + lead.length := by
  rw [read_eq] at h
  obtain ⟨firstMb, first, hRead, h⟩ := bind_eq_ok.mp h
  obtain ⟨hFirst, hRest, hPlace⟩ := readUe_eq_ok hRead
  obtain ⟨sliceType, second, hRead, h⟩ := bind_eq_ok.mp h
  obtain ⟨hType, hRest', hPlace'⟩ := readUe_eq_ok hRead
  obtain ⟨ppsId, third, hRead, h⟩ := bind_eq_ok.mp h
  obtain ⟨_, hRest'', hPlace''⟩ := readUe_eq_ok hRead
  obtain ⟨hId, hOffset, pps, sps, hActive, hWidth⟩ := readNumber_eq_ok h
  refine ⟨Bits.ue firstMb ++ (Bits.ue sliceType ++ Bits.ue ppsId), third.rest,
    ⟨firstMb, sliceType, ppsId, pps, sps, hFirst, hType, hId, hActive, hWidth, rfl⟩, ?_, ?_⟩
  · rw [hRest, hRest', hRest'', List.append_assoc, List.append_assoc]
  · rw [hOffset, hPlace'', hPlace', hPlace, List.length_append, List.length_append, Nat.add_assoc,
      Nat.add_assoc]

/-- A number that was written in place of another one is read back from the payload, unless the bytes
00 00 03 are now in front of its end. -/
theorem ofPayload_of_overwrite {payload written : Bytes} {value : Nat}
    (hField : ofPayload sets payload = .ok field)
    (hWrite : Bits.overwrite payload field.bitOffset field.bitWidth value = .ok written) :
    ofPayload sets written
      = if Nal.hasEscape (written.take field.covered) then .error .escapedFrameNum
        else .ok { field with value := value % 2 ^ field.bitWidth } := by
  obtain ⟨⟨s, hRead⟩, _⟩ := ofPayload_eq_ok_iff.mp hField
  obtain ⟨lead, back, hLead, hRest, hOffset⟩ := lead_of_read hRead
  obtain ⟨hWidth, _, _, hBits⟩ := Bits.overwrite_eq_ok hWrite
  have hPlace : field.bitOffset = lead.length := hOffset.trans (Nat.zero_add _)
  have hNumber : (Bits.ofNat field.bitWidth value).length = field.bitWidth := Bits.length_ofNat _ _
  rw [rest_ofBytes] at hRest
  rw [Bits.splice, hRest, hPlace, List.take_left, List.append_assoc, ← rest_ofBytes] at hBits
  obtain ⟨t, hBack⟩ := read_of_lead (hNumber.symm ▸ hLead) (hNumber.symm ▸ hWidth) hBits
  have hStart : (ofBytes written).position + lead.length = field.bitOffset := hOffset.symm
  rw [Bits.toNat_ofNat, hNumber, hStart] at hBack
  rw [ofPayload, Read.value?_eq_ok.mpr ⟨t, hBack⟩]
  rfl

end FrameNum

end Cadence
