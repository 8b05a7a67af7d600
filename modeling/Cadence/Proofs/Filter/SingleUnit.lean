import Cadence.Proofs.Filter.Admitted
import Cadence.Proofs.Nal.LengthFields
import Cadence.Proofs.SkipFrame.Emulation

/-!
Skipped pictures as packets are read. Behind a length field such a picture is found as the one slice that
it is, with the frame number asked for (`data_single_of_lengthPrefixed`). Behind a start code it is too,
unless a start code arises in it (`data_single_iff`). Nothing prevents that, and there are streams for
which it happens.
-/

namespace Cadence

open Nal

theorem FrameNum.result_ofPacket_of_single {sets : ParameterSets} {data : Bytes} {span : Nal.Span}
    {field : FrameNum} (hScan : scan sets.framing data = .ok ⟨[span], false⟩)
    (hSlice : span.type = .slice) (hField : ofPayload sets (span.payload data) = .ok field) :
    (ofPacket sets data).result = .ok field.value := by
  have hSlices : slices ⟨[span], false⟩ = [span] := by simp [slices, hSlice, UnitType.isSlice]
  have hIdr : ¬ span.type.isIdr := by simp [hSlice, UnitType.isIdr]
  rw [result_ofPacket, hScan]
  refine except_bind_eq_ok.mpr ⟨_, rfl, ?_⟩
  rw [hSlices, ofSlices]
  refine except_bind_eq_ok.mpr ⟨field.value, ?_, rfl⟩
  show ofSlice sets data span = .ok field.value
  rw [ofSlice, if_neg hIdr, hField]
  rfl

/-- The header byte of a skipped picture is that of a slice which is no reference. -/
theorem Nal.Span.ofExtent_slice (offset size : Nat) :
    Span.ofExtent ⟨1, offset, size⟩ = ⟨.slice, 0, offset, size⟩ := by
  have hType : UnitType.ofHeader 1 = .slice := by decide
  have hRefIdc : Nal.refIdc 1 = 0 := by decide
  rw [ofExtent, hType, hRefIdc]

namespace Filter

/-- A skipped picture can always be written, and it is read back as one unit exactly if no start code
arises in it. -/
theorem data_single_iff {info : StreamInfo} {timeBase frameRate : Rational}
    {templates : TemplateTable} {f : Filter}
    (hCreate : (create info timeBase frameRate templates).result = .ok f)
    (hFraming : f.setup.sets.framing = .annexB) (hCavlc : ¬ f.setup.skipFrame.pps.cabac)
    (frameNum : Nat) :
    ∃ data, f.setup.skipFrame.data frameNum = .ok data ∧
      (scan .annexB data = .ok ⟨[⟨.slice, 0, 4, data.length - 4⟩], false⟩ ↔
        ¬ f.setup.skipFrame.Emulates frameNum) ∧
      (¬ f.setup.skipFrame.Emulates frameNum → (FrameNum.ofPacket f.setup.sets data).result
        = .ok (frameNum % 2 ^ f.setup.skipFrame.sps.log2MaxFrameNum)) := by
  obtain ⟨_, hChecked⟩ := checked_of_create hCreate
  have hAdmitted := admitted_of_create hCreate
  generalize f.setup = setup at hFraming hCavlc hChecked hAdmitted ⊢
  obtain ⟨rest, back, hHeader, hBits⟩ := setup.skipFrame.exists_header_eq frameNum
  have hData : setup.skipFrame.data frameNum = .ok (startCode ++ 1 :: rest) := by
    rw [SkipFrame.data_eq, hChecked.sameFraming, hFraming, hHeader, hAdmitted.sliceData hCavlc,
      List.append_nil]
    rfl
  have hSpan : Span.ofExtent ⟨1, startCode.length, rest.length + 1⟩
      = ⟨.slice, 0, 4, (startCode ++ 1 :: rest).length - 4⟩ := by
    have hLength : (startCode ++ 1 :: rest).length - 4 = rest.length + 1 := by simp [startCode]
    rw [hLength, Span.ofExtent_slice]
    rfl
  have hForbidden : ¬ isForbidden 1 := by decide
  have hScan : scan .annexB (startCode ++ 1 :: rest)
        = .ok ⟨[⟨.slice, 0, 4, (startCode ++ 1 :: rest).length - 4⟩], false⟩ ↔
      ¬ setup.skipFrame.Emulates frameNum := by
    rw [← hSpan, scan_startCode_iff hForbidden, ← hHeader, ← Bool.not_eq_true,
      SkipFrame.occurs_header_iff hCavlc hAdmitted.pps hAdmitted.sps hAdmitted.frames]
  refine ⟨_, hData, hScan, fun hPlain => ?_⟩
  have hPayload : Span.payload ⟨.slice, 0, 4, (startCode ++ 1 :: rest).length - 4⟩
      (startCode ++ 1 :: rest) = rest := by
    simp [Span.payload, Span.payloadStart, startCode]
  have hField := SkipFrame.ofPayload_eq hChecked.active hAdmitted.sps.numberWidth.2 hBits
  rw [← hPayload] at hField
  exact FrameNum.result_ofPacket_of_single (hFraming ▸ hScan.mpr hPlain) rfl hField

/-- Number 21 does not fit four bits, and is written and read back as 5. -/
theorem data_single_sample :
    ∃ data, sample.setup.skipFrame.data 21 = .ok data ∧
      scan .annexB data = .ok ⟨[⟨.slice, 0, 4, data.length - 4⟩], false⟩ ∧
      (FrameNum.ofPacket sample.setup.sets data).result = .ok 5 := by
  have hFraming : sample.setup.sets.framing = .annexB := by decide +kernel
  have hCavlc : ¬ sample.setup.skipFrame.pps.cabac := by decide +kernel
  have hPlain : ¬ sample.setup.skipFrame.Emulates 21 := by decide +kernel
  have hNumber : 21 % 2 ^ sample.setup.skipFrame.sps.log2MaxFrameNum = 5 := by decide +kernel
  obtain ⟨data, hData, hScan, hRead⟩ := data_single_iff create_sample hFraming hCavlc 21
  exact ⟨data, hData, hScan.mpr hPlain, hNumber ▸ hRead hPlain⟩

/-- A stream with frame numbers of 16 bits and a coarse quantiser. -/
def coarseInfo : StreamInfo where
  codec := .h264
  extradata := [0, 0, 0, 1, 0x67, 0x42, 0xC0, 0x1E, 0x8D, 0x68, 0x96, 0x40,
    0, 0, 0, 1, 0x68, 0xCE, 0x01, 0x17, 0x20]
  video := some ⟨32, 32⟩

def coarse : Filter :=
  (create coarseInfo ⟨1, 90000⟩ ⟨25, 1⟩ []).result.toOption.get (by decide +kernel)

/-- After 32768 pictures the skipped one falls apart into a slice of two bytes and a parameter set. -/
theorem scan_coarse :
    (create coarseInfo ⟨1, 90000⟩ ⟨25, 1⟩ []).result = .ok coarse ∧
      coarse.setup.sets.framing = .annexB ∧ ¬ coarse.setup.skipFrame.pps.cabac ∧
      ∃ data, coarse.setup.skipFrame.data 32768 = .ok data ∧
        scan .annexB data = .ok ⟨[⟨.slice, 0, 4, 2⟩, ⟨.sps, 0, 9, 2⟩], false⟩ ∧
        (FrameNum.ofPacket coarse.setup.sets data).result = .error .endOfData :=
  ⟨except_eq_ok_get _, by decide +kernel, by decide +kernel,
    [0, 0, 0, 1, 0x01, 0x9B, 0, 0, 1, 0x07, 0x94], by decide +kernel, by decide +kernel,
    by decide +kernel⟩

/-- Behind a length field every skipped picture that can be written is read back as one unit, with the
number asked for. Its template may hold any bytes, as nothing behind the frame number is looked at. -/
theorem data_single_of_lengthPrefixed {info : StreamInfo} {timeBase frameRate : Rational}
    {templates : TemplateTable} {f : Filter} {size : LengthSize} {frameNum : Nat} {data : Bytes}
    (hCreate : (create info timeBase frameRate templates).result = .ok f)
    (hFraming : f.setup.sets.framing = .lengthPrefixed size)
    (hData : f.setup.skipFrame.data frameNum = .ok data) :
    (size.bytes = 2 ∨ size.bytes = 4) ∧ size.bytes < data.length ∧
      scan f.setup.sets.framing data
        = .ok ⟨[⟨.slice, 0, size.bytes, data.length - size.bytes⟩], false⟩ ∧
      (FrameNum.ofPacket f.setup.sets data).result
        = .ok (frameNum % 2 ^ f.setup.skipFrame.sps.log2MaxFrameNum) := by
  obtain ⟨_, hChecked⟩ := checked_of_create hCreate
  have hAdmitted := admitted_of_create hCreate
  generalize f.setup = setup at hFraming hData hChecked hAdmitted ⊢
  have hSkipFraming := hChecked.sameFraming.trans hFraming
  obtain ⟨rest, back, hHeader, hBits⟩ := setup.skipFrame.exists_header_eq frameNum
  have hFits : setup.skipFrame.unitLength < 2 ^ (8 * size.bytes) := by
    have hFits := (SkipFrame.exists_data_iff _ frameNum).mp ⟨data, hData⟩
    rwa [SkipFrame.Fits, hSkipFraming] at hFits
  have hLength : setup.skipFrame.unitLength = (rest ++ setup.skipFrame.sliceData).length + 1 := by
    rw [SkipFrame.unitLength, ← SkipFrame.length_header _ frameNum, hHeader, ← List.length_append]
    rfl
  obtain rfl : bigEndianBytes size.bytes setup.skipFrame.unitLength
      ++ 1 :: (rest ++ setup.skipFrame.sliceData) = data := by
    rw [SkipFrame.data_eq, hSkipFraming, hHeader, Framing.header, Nat.one_shiftLeft,
      if_neg (Nat.not_le.mpr hFits)] at hData
    exact Except.ok.inj hData
  rw [hLength] at hFits ⊢
  have hForbidden : ¬ isForbidden 1 := by decide
  have hScan := scan_lengthField hForbidden hFits
  rw [Span.ofExtent_slice] at hScan
  have hSize := length_bigEndianBytes size.bytes ((rest ++ setup.skipFrame.sliceData).length + 1)
  generalize bigEndianBytes size.bytes ((rest ++ setup.skipFrame.sliceData).length + 1) = field
    at hScan hSize ⊢
  have hUnit : (field ++ 1 :: (rest ++ setup.skipFrame.sliceData)).length - size.bytes
      = (rest ++ setup.skipFrame.sliceData).length + 1 := by
    rw [List.length_append, List.length_cons]
    omega
  have hPayload : Span.payload ⟨.slice, 0, size.bytes, (rest ++ setup.skipFrame.sliceData).length + 1⟩
      (field ++ 1 :: (rest ++ setup.skipFrame.sliceData)) = rest ++ setup.skipFrame.sliceData := by
    rw [Span.payload, Span.payloadStart, ← hSize, ← List.drop_drop, List.drop_left]
    exact List.take_length
  have hWritten : Bits.ofBytes (rest ++ setup.skipFrame.sliceData) = SkipFrame.leadBits
      ++ (Bits.ofNat setup.skipFrame.sps.log2MaxFrameNum frameNum
        ++ (back ++ Bits.ofBytes setup.skipFrame.sliceData)) := by
    rw [Bits.ofBytes_append, hBits, List.append_assoc, List.append_assoc]
  have hField := SkipFrame.ofPayload_eq hChecked.active hAdmitted.sps.numberWidth.2 hWritten
  rw [← hPayload] at hField
  rw [hUnit, hFraming]
  refine ⟨?_, ?_, hScan, FrameNum.result_ofPacket_of_single (hFraming ▸ hScan) rfl hField⟩
  · exact hAdmitted.lengthSize size hSkipFraming
  · rw [List.length_append, List.length_cons]
    omega

/-- The sample stream with arithmetic coding and length fields of four bytes. -/
def codedInfo : StreamInfo where
  codec := .h264
  extradata := [0x01, 0x42, 0xC0, 0x1E, 0xFF, 0xE1, 0x00, 0x07, 0x67, 0x42, 0xC0, 0x1E, 0xDA, 0x25,
    0x90, 0x01, 0x00, 0x04, 0x68, 0xEE, 0x3C, 0x80]
  video := some ⟨32, 32⟩

/-- A template that holds a start code and an escape byte. -/
def codedTemplates : TemplateTable :=
  Table.put [] ⟨32, 32⟩ [0, 0, 1, 0, 0, 3]

def coded : Filter :=
  (create codedInfo ⟨1, 90000⟩ ⟨25, 1⟩ codedTemplates).result.toOption.get (by decide +kernel)

theorem create_coded :
    (create codedInfo ⟨1, 90000⟩ ⟨25, 1⟩ codedTemplates).result = .ok coded :=
  except_eq_ok_get _

def codedData : Bytes :=
  (coded.setup.skipFrame.data 21).toOption.get (by decide +kernel)

/-- The start code in the template does not split the unit. -/
theorem data_single_of_lengthPrefixed_coded :
    coded.setup.sets.framing = .lengthPrefixed ⟨4, by decide, by decide⟩ ∧
      coded.setup.skipFrame.pps.cabac ∧ codedData.length = 15 ∧
      scan coded.setup.sets.framing codedData = .ok ⟨[⟨.slice, 0, 4, 11⟩], false⟩ ∧
      (FrameNum.ofPacket coded.setup.sets codedData).result = .ok 5 := by
  have hFraming : coded.setup.sets.framing = .lengthPrefixed ⟨4, by decide, by decide⟩ := by
    decide +kernel
  have hLength : codedData.length = 15 := by decide +kernel
  have hNumber : 21 % 2 ^ coded.setup.skipFrame.sps.log2MaxFrameNum = 5 := by decide +kernel
  have hData : coded.setup.skipFrame.data 21 = .ok codedData := except_eq_ok_get _
  obtain ⟨_, _, hScan, hRead⟩ := data_single_of_lengthPrefixed create_coded hFraming hData
  rw [hLength] at hScan
  rw [hNumber] at hRead
  exact ⟨hFraming, by decide +kernel, hLength, hScan, hRead⟩

end Filter

end Cadence
