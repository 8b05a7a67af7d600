import Cadence.Proofs.Filter.Admitted
import Cadence.Proofs.FrameNum.Headers
import Cadence.Proofs.Nal.EscapePlaces
import Cadence.Proofs.ParameterSets.ColourPlanes
import Cadence.Proofs.ParameterSets.Origin

/-!
Slice headers in streams whose colour planes are coded separately. Such a header names its plane in two bits in
front of the frame number, and these bits are not skipped. So for every stream that a filter is created for, the
number is read where it stands exactly if the stream does not separate its planes; otherwise it is read two bits
too early (`ofPayload_header_iff`).
-/

namespace Cadence

/-- The bits of two numbers behind each other are those of one number. -/
theorem Bits.ofNat_append_ofNat (width count high : Nat) {low : Nat} (h : low < 2 ^ count) :
    ofNat width high ++ ofNat count low = ofNat (width + count) (high % 2 ^ width * 2 ^ count + low) := by
  have hBits := ofNat_toNat (ofNat width high ++ ofNat count low)
  rw [toNat_append, toNat_ofNat, toNat_ofNat, Nat.mod_eq_of_lt h, List.length_append, length_ofNat,
    length_ofNat] at hBits
  exact hBits.symm

/-- What a slice header holds up to the frame number. -/
structure SliceHeader where
  firstMb : Nat
  sliceType : Nat
  ppsId : Fin 256
  /-- The colour plane of the slice, where planes are coded separately. -/
  colourPlane : Option (Fin 4)
  number : Nat
  firstMb_fits : firstMb + 1 < 2 ^ 32
  sliceType_fits : sliceType + 1 < 2 ^ 32

namespace SliceHeader

variable (header : SliceHeader)

/-- The code words that every header begins with. -/
def words : List Bool :=
  Bits.ue header.firstMb ++ (Bits.ue header.sliceType ++ Bits.ue header.ppsId)

def planeBits : List Bool :=
  match header.colourPlane with
  | none => []
  | some plane => Bits.ofNat 2 plane

/-- The header up to the end of the frame number, which is `width` bits wide. -/
def bits (width : Nat) : List Bool :=
  header.words ++ (header.planeBits ++ Bits.ofNat width header.number)

/-- The frame number with its place in the payload. -/
def field (width : Nat) : FrameNum where
  value := header.number
  bitOffset := header.words.length + header.planeBits.length
  bitWidth := width

/-- The frame number that is read from the first of the two bits that name a plane. -/
def misread (plane : Fin 4) (width : Nat) : FrameNum where
  value := (plane * 2 ^ width + header.number) / 4
  bitOffset := header.words.length
  bitWidth := width

/-- A payload begins with the header, and no escape byte is in front of the end of the frame number. -/
structure Opens (width : Nat) (payload : Bytes) : Prop where
  number_lt : header.number < 2 ^ width
  bits : header.bits width <+: Bits.ofBytes payload
  plain : Nal.hasEscape (payload.take (header.field width).covered) = false

variable {header} {sets : ParameterSets} {pps : Pps} {sps : Sps} {payload : Bytes} {back : List Bool}

theorem lead_words (h : sets.active header.ppsId = .ok (pps, sps)) :
    FrameNum.Lead sets sps.log2MaxFrameNum header.words :=
  ⟨header.firstMb, header.sliceType, header.ppsId, pps, sps, header.firstMb_fits,
    header.sliceType_fits, Nat.not_lt.mpr (Nat.le_of_lt_succ header.ppsId.isLt), h, rfl, rfl⟩

/-- The bits behind the code words are read as the frame number. -/
theorem ofPayload_of_words {value : Nat} (hActive : sets.active header.ppsId = .ok (pps, sps))
    (hWidth : sps.log2MaxFrameNum ≤ 32) (hValue : value < 2 ^ sps.log2MaxFrameNum)
    (hBits : Bits.ofBytes payload
      = header.words ++ (Bits.ofNat sps.log2MaxFrameNum value ++ back))
    (hPlain : Nal.hasEscape
      (payload.take ((header.words.length + sps.log2MaxFrameNum + 7) / 8)) = false) :
    FrameNum.ofPayload sets payload = .ok ⟨value, header.words.length, sps.log2MaxFrameNum⟩ := by
  have hNumber := Bits.length_ofNat sps.log2MaxFrameNum value
  have hRead := FrameNum.ofPayload_of_lead (hNumber.symm ▸ lead_words hActive)
    (hNumber.symm ▸ hWidth) hBits (hNumber.symm ▸ hPlain)
  rwa [Bits.toNat_ofNat, Nat.mod_eq_of_lt hValue, hNumber] at hRead

/-- Read from the two bits in front of it, a number lacks its own last two bits. -/
theorem exists_plane_append_number (plane : Fin 4) {width number : Nat} (h : number < 2 ^ width) :
    ∃ tail, Bits.ofNat 2 plane ++ Bits.ofNat width number
      = Bits.ofNat width ((plane * 2 ^ width + number) / 4) ++ tail := by
  have hPlane : (plane : Nat) % 2 ^ 2 = plane := Nat.mod_eq_of_lt plane.isLt
  have hFront := Bits.take_ofNat (plane * 2 ^ width + number) (Nat.le_add_left width 2)
  rw [Nat.add_sub_cancel, Nat.shiftRight_eq_div_pow] at hFront
  refine ⟨(Bits.ofNat (2 + width) (plane * 2 ^ width + number)).drop width, ?_⟩
  rw [Bits.ofNat_append_ofNat _ _ _ h, hPlane, ← hFront, List.take_append_drop]

/-- A header without a plane is read as it was written. -/
theorem ofPayload_of_whole (hActive : sets.active header.ppsId = .ok (pps, sps))
    (hWidth : sps.log2MaxFrameNum ≤ 32) (h : header.Opens sps.log2MaxFrameNum payload)
    (hPlane : header.colourPlane = none) :
    FrameNum.ofPayload sets payload = .ok (header.field sps.log2MaxFrameNum) := by
  obtain ⟨hNumber, ⟨back, hBits⟩, hPlain⟩ := h
  have hNone : header.planeBits = [] := by rw [planeBits, hPlane]
  have hField : header.field sps.log2MaxFrameNum
      = ⟨header.number, header.words.length, sps.log2MaxFrameNum⟩ := by
    rw [field, hNone]
    rfl
  rw [bits, hNone, List.nil_append, List.append_assoc] at hBits
  rw [hField] at hPlain ⊢
  exact ofPayload_of_words hActive hWidth hNumber hBits.symm hPlain

/-- In a header with a plane the number is read from the two bits of the plane. -/
theorem ofPayload_of_plane {plane : Fin 4} (hActive : sets.active header.ppsId = .ok (pps, sps))
    (hWidth : sps.log2MaxFrameNum ≤ 32) (h : header.Opens sps.log2MaxFrameNum payload)
    (hPlane : header.colourPlane = some plane) :
    FrameNum.ofPayload sets payload = .ok (header.misread plane sps.log2MaxFrameNum) := by
  obtain ⟨hNumber, ⟨back, hBits⟩, hPlain⟩ := h
  have hSome : header.planeBits = Bits.ofNat 2 plane := by rw [planeBits, hPlane]
  obtain ⟨tail, hTail⟩ := exists_plane_append_number plane hNumber
  rw [bits, hSome, hTail, List.append_assoc, List.append_assoc] at hBits
  refine ofPayload_of_words hActive hWidth ?_ hBits.symm (Nal.hasEscape_take_of_le ?_ hPlain)
  · have hLess : (plane : Nat) * 2 ^ sps.log2MaxFrameNum ≤ 3 * 2 ^ sps.log2MaxFrameNum :=
      Nat.mul_le_mul_right _ (Nat.le_of_lt_succ plane.isLt)
    omega
  · rw [FrameNum.covered, field]
    dsimp only
    omega

/-- Read from the bits of the plane, the number is at the wrong place whatever its value. -/
theorem misread_ne_field {plane : Fin 4} {width : Nat} (h : header.colourPlane = some plane) :
    header.misread plane width ≠ header.field width := by
  intro hSame
  have hPlace : header.words.length = header.words.length + header.planeBits.length :=
    congrArg FrameNum.bitOffset hSame
  rw [planeBits, h, Bits.length_ofNat] at hPlace
  omega

end SliceHeader

namespace Filter

/-- For every stream that a filter is created for, and every slice header that is written for a sequence
parameter set of the stream, with a plane exactly if the set separates planes: the frame number is read with its
value, place and width exactly if the set does not separate planes. If it does, the number is read from the two
bits that name the plane. -/
theorem ofPayload_header_iff {info : StreamInfo} {timeBase frameRate : Rational}
    {templates : TemplateTable} {f : Filter}
    (hCreate : (create info timeBase frameRate templates).result = .ok f) {header : SliceHeader}
    {pps : Pps} {sps : Sps} (hActive : f.setup.sets.active header.ppsId = .ok (pps, sps)) :
    ∃ rbsp, ParameterSets.storedSps? info.extradata pps.spsId = some (rbsp, sps) ∧
      ∀ payload, header.Opens sps.log2MaxFrameNum payload →
        (header.colourPlane.isSome ↔ Sps.SeparatesPlanes rbsp) →
        (FrameNum.ofPayload f.setup.sets payload = .ok (header.field sps.log2MaxFrameNum) ↔
          ¬ Sps.SeparatesPlanes rbsp) ∧
        ∀ plane, header.colourPlane = some plane →
          FrameNum.ofPayload f.setup.sets payload = .ok (header.misread plane sps.log2MaxFrameNum) := by
  obtain ⟨_, _, sets, _, hSets, hSetup⟩ := exists_ofSets_of_create hCreate
  obtain rfl := (Setup.of_ofSets hSetup).1
  obtain ⟨rbsp, hStored⟩ := ParameterSets.storedSps?_of_active hSets hActive
  have hWidth : sps.log2MaxFrameNum ≤ 32 := by
    have := ((ParameterSets.inRange_of_ofExtradata hSets).active hActive).2.numberWidth
    omega
  refine ⟨rbsp, hStored, fun payload hOpens hPlanes => ?_⟩
  have hMisread (plane : Fin 4) (hPlane : header.colourPlane = some plane) :=
    SliceHeader.ofPayload_of_plane hActive hWidth hOpens hPlane
  refine ⟨?_, hMisread⟩
  rw [← hPlanes]
  cases hPlane : header.colourPlane with
  | none =>
      exact iff_of_true (SliceHeader.ofPayload_of_whole hActive hWidth hOpens hPlane) (by simp)
  | some plane =>
      refine iff_of_false (fun hField => ?_) (by simp)
      rw [hMisread plane hPlane] at hField
      exact SliceHeader.misread_ne_field hPlane (Except.ok.inj hField)

/-- A header in a stream whose planes are coded together. -/
def sampleHeader : SliceHeader :=
  ⟨0, 5, 0, none, 3, by decide, by decide⟩

/-- In a stream whose planes are coded together the header is read as it was written. -/
theorem ofPayload_header_iff_sample :
    (create sampleInfo ⟨1, 90000⟩ ⟨25, 1⟩ []).result = .ok sample ∧
      sample.setup.sets.active sampleHeader.ppsId
        = .ok (sample.setup.skipFrame.pps, sample.setup.skipFrame.sps) ∧
      FrameNum.ofPayload sample.setup.sets [0x9A, 0x60] = .ok (sampleHeader.field 4) := by
  have hActive : sample.setup.sets.active sampleHeader.ppsId
      = .ok (sample.setup.skipFrame.pps, sample.setup.skipFrame.sps) :=
    (checked_of_create create_sample).2.active
  have hWidth : sample.setup.skipFrame.sps.log2MaxFrameNum = 4 := by decide +kernel
  have hSps : ParameterSets.storedSps? sampleInfo.extradata sample.setup.skipFrame.pps.spsId
      = some ([0x42, 0xC0, 0x1E, 0xDA, 0x25, 0x90], sample.setup.skipFrame.sps) := by decide +kernel
  have hTogether : ¬ Sps.SeparatesPlanes [0x42, 0xC0, 0x1E, 0xDA, 0x25, 0x90] :=
    Sps.not_separatesPlanes (by decide) _
  obtain ⟨rbsp, hStored, hRead⟩ := ofPayload_header_iff create_sample hActive
  cases hStored.symm.trans hSps
  rw [hWidth] at hRead
  have hOpens : sampleHeader.Opens 4 [0x9A, 0x60] := ⟨by decide, by decide, by decide⟩
  exact ⟨create_sample, hActive,
    (hRead _ hOpens (iff_of_false (by decide) hTogether)).1.mpr hTogether⟩

/-- A small picture whose colour planes are coded separately. -/
def sampleSeparate : StreamInfo where
  codec := .h264
  extradata := [0, 0, 0, 1, 0x67, 0xF4, 0x00, 0x1E, 0x93, 0x96, 0x89, 0x64,
    0, 0, 0, 1, 0x68, 0xCE, 0x3C, 0x80]
  video := some ⟨32, 32⟩

def separate : Filter :=
  (create sampleSeparate ⟨1, 90000⟩ ⟨25, 1⟩ []).result.toOption.get (by decide +kernel)

/-- A slice of the third plane with the number 1. -/
def separateHeader : SliceHeader :=
  ⟨0, 5, 0, some 2, 1, by decide, by decide⟩

/-- The bits of the plane are taken for the first two bits of the number, and 8 is read in place of 1. -/
theorem ofPayload_separateHeader :
    (create sampleSeparate ⟨1, 90000⟩ ⟨25, 1⟩ []).result = .ok separate ∧
      separate.setup.sets.active separateHeader.ppsId
        = .ok (separate.setup.skipFrame.pps, separate.setup.skipFrame.sps) ∧
      separate.setup.skipFrame.sps.log2MaxFrameNum = 4 ∧
      ParameterSets.storedSps? sampleSeparate.extradata separate.setup.skipFrame.pps.spsId
        = some ([0xF4, 0x00, 0x1E, 0x93, 0x96, 0x89, 0x64], separate.setup.skipFrame.sps) ∧
      Sps.SeparatesPlanes [0xF4, 0x00, 0x1E, 0x93, 0x96, 0x89, 0x64] ∧
      separateHeader.Opens 4 [0x9B, 0x0C, 0x80] ∧ separateHeader.field 4 = ⟨1, 9, 4⟩ ∧
      FrameNum.ofPayload separate.setup.sets [0x9B, 0x0C, 0x80] = .ok ⟨8, 7, 4⟩ := by
  refine ⟨except_eq_ok_get _, by decide +kernel, by decide +kernel, by decide +kernel, ?_,
    ⟨by decide, by decide, by decide⟩, by decide, by decide +kernel⟩
  exact ⟨0xF4, 0x00, 0x1E, [0x93, 0x96, 0x89, 0x64], 0, (Bits.ofBytes [0x93, 0x96, 0x89, 0x64]).drop 7,
    rfl, by decide, by decide⟩

end Filter

end Cadence
