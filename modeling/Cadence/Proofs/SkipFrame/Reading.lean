import Cadence.Proofs.FrameNum.Headers
import Cadence.Proofs.SkipFrame

/-!
The frame number of a skipped picture is read back from its slice header. The field ends within the
first three bytes of the payload, and the first of them is not zero, so no escape byte is in the way.
-/

namespace Cadence

open BitReader

theorem Bits.ofByte_injective : Function.Injective ofByte := by
  intro left right h
  have hSame : ofBytes [left] = ofBytes [right] := by simp [h]
  exact List.singleton_inj.mp (ofBytes_injective hSame)

theorem Nal.hasEscape_of_short {data : Bytes} (h : data.length < 3) : hasEscape data = false := by
  rcases data with _ | ⟨a, _ | ⟨b, _ | ⟨c, data⟩⟩⟩
  · rfl
  · simp [hasEscape]
  · simp [hasEscape]
  · simp only [List.length_cons] at h
    omega

theorem Nal.hasEscape_of_ne_zero {byte : UInt8} (hByte : byte ≠ 0) {data : Bytes}
    (h : data.length < 3) : hasEscape (byte :: data) = false := by
  rw [hasEscape]
  · exact hasEscape_of_short h
  · rintro rest rfl
    exact absurd rfl hByte

namespace SkipFrame

variable {s : SkipFrame}

theorem lead_leadBits {sets : ParameterSets} (hActive : sets.active 0 = .ok (s.pps, s.sps)) :
    FrameNum.Lead sets s.sps.log2MaxFrameNum leadBits :=
  ⟨0, sliceType, 0, s.pps, s.sps, by decide, by decide, by decide, hActive, rfl,
    List.append_assoc _ _ _⟩

/-- The payload of a skipped picture begins with a one bit. -/
theorem exists_payload {frameNum : Nat} {payload : Bytes} {back : List Bool}
    (hBits : Bits.ofBytes payload
      = leadBits ++ (Bits.ofNat s.sps.log2MaxFrameNum frameNum ++ back)) :
    ∃ byte rest, byte ≠ 0 ∧ payload = byte :: rest := by
  have hLead : leadBits = true :: leadBits.tail := by decide
  rw [hLead] at hBits
  cases payload with
  | nil => cases hBits
  | cons byte rest =>
      refine ⟨byte, rest, ?_, rfl⟩
      rintro rfl
      cases hBits

theorem ofPayload_eq {sets : ParameterSets} {frameNum : Nat} {payload : Bytes} {back : List Bool}
    (hActive : sets.active 0 = .ok (s.pps, s.sps)) (hWidth : s.sps.log2MaxFrameNum ≤ 16)
    (hBits : Bits.ofBytes payload
      = leadBits ++ (Bits.ofNat s.sps.log2MaxFrameNum frameNum ++ back)) :
    FrameNum.ofPayload sets payload
      = .ok ⟨frameNum % 2 ^ s.sps.log2MaxFrameNum, leadBits.length, s.sps.log2MaxFrameNum⟩ := by
  have hNumber := Bits.length_ofNat s.sps.log2MaxFrameNum frameNum
  obtain ⟨byte, rest, hByte, rfl⟩ := exists_payload hBits
  have hEscape (count : Nat) (h : count ≤ 3) : Nal.hasEscape ((byte :: rest).take count) = false := by
    cases count with
    | zero => rfl
    | succ count =>
        rw [List.take_succ_cons]
        apply Nal.hasEscape_of_ne_zero hByte
        rw [List.length_take]
        omega
  have hLead : leadBits.length = 7 := by decide
  have hRead := FrameNum.ofPayload_of_lead (hNumber.symm ▸ lead_leadBits hActive) (by omega) hBits
    (hEscape _ (by omega))
  rwa [Bits.toNat_ofNat, hNumber] at hRead

/-- Behind the syntax elements there are only zeros. -/
theorem ofBytes_header (s : SkipFrame) (frameNum : Nat) :
    ∃ count, Bits.ofBytes (s.header frameNum)
      = s.headerBits frameNum ++ s.runBits ++ List.replicate count false := by
  rw [header, BitWriter.ofBytes_finish, BitWriter.bits_writeRun, BitWriter.bits_empty,
    List.nil_append]
  exact ⟨_, rfl⟩

/-- Behind its first byte the header holds the lead bits and the frame number. -/
theorem exists_header_eq (s : SkipFrame) (frameNum : Nat) :
    ∃ rest back, s.header frameNum = 1 :: rest ∧
      Bits.ofBytes rest = leadBits ++ (Bits.ofNat s.sps.log2MaxFrameNum frameNum ++ back) := by
  obtain ⟨back, hBack⟩ := s.exists_headerBits_eq frameNum
  obtain ⟨count, hBits⟩ := s.ofBytes_header frameNum
  rw [hBack, List.append_assoc, List.append_assoc, List.append_assoc, List.append_assoc] at hBits
  cases hHeader : s.header frameNum with
  | nil =>
      rw [hHeader] at hBits
      cases hBits
  | cons byte rest =>
      rw [hHeader, Bits.ofBytes_cons] at hBits
      obtain ⟨hByte, hRest⟩ := List.append_inj hBits (by simp)
      obtain rfl : byte = 1 := Bits.ofByte_injective hByte
      exact ⟨rest, back ++ (s.runBits ++ List.replicate count false), rfl, hRest⟩

end SkipFrame

end Cadence
