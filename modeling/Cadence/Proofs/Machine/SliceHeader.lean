import Cadence.Proofs.FrameNum.Faults
import Cadence.Proofs.Machine.Reader
import Cadence.Proofs.Machine.Units

/-!
Reading and moving the frame numbers of a packet on a machine. The part of a slice header that is looked
at lies in the payload of its unit, and so do the bits that are replaced: neither reading nor writing meets
a hazard, whatever is in the packet.
-/

namespace Cadence.Machine

open Nal

def readHeader (sets : ParameterSets) : Reader FrameNum := do
  skipMany readUe 2
  let ppsId ← readUe
  if ppsId > 255 then ofExcept (.error (.slicePpsId ppsId))
  let sps ← ofExcept ((sets.active ppsId).map Prod.snd)
  let bitOffset := (← get).position
  let value ← readBits sps.log2MaxFrameNum
  return { value, bitOffset, bitWidth := sps.log2MaxFrameNum }

/-- A quotient that is rounded up. -/
def divUp (bits a b : Nat) : Machine Nat := do
  if 0 < (← rem a b) then add bits (a / b) 1 else return a / b

/-- The frame number of a slice, given the payload of its unit. -/
def parseField (sets : ParameterSets) (payload : Bytes) : Machine FrameNum := do
  let (field, _) ← readHeader sets (BitReader.ofBytes payload)
  let covered ← divUp 64 (← add 64 field.bitOffset field.bitWidth) 8
  if hasEscape (← slice payload 0 covered) then ofExcept (.error .escapedFrameNum)
  return field

/-- The bytes of a unit behind its header. -/
def payloadOf (data : Bytes) (span : Span) : Machine Bytes := do
  slice data (← add 64 span.offset 1) (← add 64 span.offset span.size)

/-- The frame number of a slice of a packet. -/
def parseSlice (sets : ParameterSets) (data : Bytes) (span : Span) : Machine Nat :=
  if span.type.isIdr then return 0
  else do return (← parseField sets (← payloadOf data span)).value

/-- The frame number of the last of some slices. -/
def parseSlices (sets : ParameterSets) (data : Bytes) : (spans : List Span) → Nat → Machine Nat
  | [], last => return last
  | span :: spans, _ => do parseSlices sets data spans (← parseSlice sets data span)

def parseFrameNum (sets : ParameterSets) (data : Bytes) : Machine Nat := do
  let spans ← scanUnits sets.framing data
  parseSlices sets data (spans.filter (·.type.isSlice)) 0

/-- The number moved forward, modulo the range of its field. -/
def adjusted (field : FrameNum) (adjustment : UInt32) : Machine Nat := do
  let modulus ← shl 64 1 field.bitWidth
  let moved ← add 64 field.value adjustment.toNat
  return (← rem moved modulus) % 2 ^ 32

/-- The byte with the bit at `shift` replaced. -/
def replaceIn (byte : UInt8) (bit shift : Nat) : Machine UInt8 := do
  let mask ← shl 8 1 shift
  let set ← shl 8 bit shift
  return (byte &&& ~~~UInt8.ofNat mask) ||| UInt8.ofNat set

/-- Replaces the `count` bits from `place` on, in front of which `done` bits of the value have been
written. -/
def replaceRun (width value : Nat) : (count done place : Nat) → Bytes → Machine Bytes
  | 0, _, _, data => return data
  | count + 1, done, place, data => do
    let bit := (← shr 32 value (← sub (← sub width 1) done)) % 2
    let shift ← sub 7 (place % 8)
    let byte ← replaceIn (← index data (place / 8)) bit shift
    replaceRun width value count (done + 1) (place + 1) (data.set (place / 8) byte)

def replaceBits (data : Bytes) (offset width value : Nat) : Machine Bytes := do
  if 32 < width then ofExcept (.error (.overwriteWidth width))
  let total ← mul 64 8 data.length
  if 2 ^ 64 ≤ offset + width ∨ total < offset + width then
    ofExcept (.error (.overwriteRange offset width total))
  replaceRun width value width 0 offset data

/-- Moves the frame number of a slice of a packet. -/
def patchSlice (sets : ParameterSets) (adjustment : UInt32) (data : Bytes) (span : Span) :
    Machine (Bytes × Nat) := do
  let payload ← payloadOf data span
  let field ← parseField sets payload
  let value ← adjusted field adjustment
  let written ← replaceBits payload field.bitOffset field.bitWidth value
  return (data.take span.payloadStart ++ written ++ data.drop span.payloadEnd, value)

def patchSlices (sets : ParameterSets) (adjustment : UInt32) :
    (spans : List Span) → Bytes → Nat → Machine (Bytes × Renumbering)
  | [], data, last => return (data, .done last)
  | span :: spans, data, _ => do
    let (packet, value) ← patchSlice sets adjustment data span
    patchSlices sets adjustment spans packet value

def patchFrameNum (sets : ParameterSets) (adjustment : UInt32) (data : Bytes) :
    Machine (Bytes × Renumbering) := do
  let spans := (← scanUnits sets.framing data).filter (·.type.isSlice)
  if spans.isEmpty ∨ spans.any (·.type.isIdr) then return (data, .endOfGop)
  patchSlices sets adjustment spans data 0

section Reading

/-- The slice header up to the frame number is read as on integers. -/
theorem agrees_readHeader (sets : ParameterSets) :
    Agrees (readHeader sets) (FrameNum.read sets) := by
  unfold readHeader FrameNum.read
  refine (Agrees.readUe.skipMany 2).bind fun _ _ _ _ => Agrees.readUe.bind fun ppsId _ _ _ => ?_
  split
  case isTrue => exact .fault rfl
  case isFalse =>
    cases hActive : sets.active ppsId with
    | error fault => exact .fault (FrameNum.category_of_active hActive)
    | ok active =>
        refine (Agrees.value rfl).bind fun sps _ _ _ => ?_
        exact Agrees.get.bind fun r _ _ _ => (Agrees.readBits _).bind fun _ _ _ _ => .pure _

theorem divUp_eight {bits a : Nat} (h : a / 8 + 1 < 2 ^ bits) : divUp bits a 8 = .ok ((a + 7) / 8) := by
  rw [divUp, rem_of_pos (by decide), ok_bind]
  by_cases hRest : 0 < a % 8
  · have hUp : (a + 7) / 8 = a / 8 + 1 := by omega
    rw [if_pos hRest, add_of_lt h, hUp]
  · have hExact : (a + 7) / 8 = a / 8 := by omega
    rw [if_neg hRest, hExact]
    rfl

/-- Reading a slice header meets no hazard: the part up to the frame number lies in the payload. -/
theorem parseField_eq (sets : ParameterSets) {payload : Bytes} (hSize : payload.length < 2 ^ 60) :
    parseField sets payload = ofExcept (FrameNum.ofPayload sets payload) := by
  have hSized : Sized (BitReader.ofBytes payload) := ⟨Nat.zero_le _, by simpa [BitReader.ofBytes]⟩
  have hHeader := (agrees_readHeader sets).eq _ hSized
  rw [parseField, hHeader, FrameNum.ofPayload, BitReader.Read.value?]
  cases hRead : FrameNum.read sets (BitReader.ofBytes payload) with
  | error fault s => rfl
  | ok field s =>
      obtain ⟨hWidth, hRange, _⟩ := FrameNum.read_eq_ok hRead hSized.within
      have hRange : field.bitOffset + field.bitWidth ≤ 8 * payload.length := by
        simpa [BitReader.ofBytes] using hRange
      rw [outcome, ok_bind]
      dsimp only
      rw [add_of_lt (by omega), ok_bind, divUp_eight (by omega), ok_bind,
        slice_of_le (Nat.zero_le _) (by omega), ok_bind, List.drop_zero, Nat.sub_zero]
      show (if hasEscape (payload.take field.covered) then _ else _)
        = ofExcept (if hasEscape (payload.take field.covered) then _ else _)
      cases hasEscape (payload.take field.covered) <;> rfl

/-- The payload of a unit within the data is cut out without a hazard. -/
theorem payloadOf_eq {data : Bytes} {span : Span} (hSpan : span.Within data)
    (hSize : data.length < 2 ^ 60) : payloadOf data span = .ok (span.payload data) := by
  obtain ⟨hPos, hEnd⟩ := hSpan
  have hEnd : span.offset + span.size ≤ data.length := hEnd
  have hCount : span.offset + span.size - (span.offset + 1) = span.size - 1 := by omega
  rw [payloadOf, add_of_lt (by omega), ok_bind, add_of_lt (by omega), ok_bind,
    slice_of_le (by omega) hEnd, hCount]
  rfl

theorem length_payload_lt {data : Bytes} (span : Span) (hSize : data.length < 2 ^ 60) :
    (span.payload data).length < 2 ^ 60 := by
  rw [Span.payload, List.length_take, List.length_drop]
  omega

/-- The number of one slice is read alike. -/
theorem parseSlice_eq (sets : ParameterSets) {data : Bytes} (hSize : data.length < 2 ^ 60)
    {span : Span} (hSpan : span.Within data) :
    parseSlice sets data span = ofExcept (FrameNum.ofSlice sets data span) := by
  rw [parseSlice, FrameNum.ofSlice]
  split
  case isTrue => rfl
  case isFalse =>
    rw [payloadOf_eq hSpan hSize, ok_bind, parseField_eq sets (length_payload_lt span hSize),
      ofExcept_bind]
    rfl

/-- The numbers of all slices are read alike, down to the first fault, by induction over the
slices. -/
theorem parseSlices_eq (sets : ParameterSets) {data : Bytes} (hSize : data.length < 2 ^ 60)
    {spans : List Span} (hWithin : ∀ span ∈ spans, span.Within data) (last : Nat) :
    parseSlices sets data spans last = ofExcept (FrameNum.ofSlices sets data spans last) := by
  induction spans generalizing last with
  | nil => rfl
  | cons span spans ih =>
      obtain ⟨hHead, hTail⟩ := List.forall_mem_cons.mp hWithin
      rw [parseSlices, parseSlice_eq sets hSize hHead, FrameNum.ofSlices, List.foldlM_cons,
        ofExcept_bind]
      congr 1
      funext number
      exact ih hTail number

/-- Reading the frame number of a packet meets no hazard. -/
theorem parseFrameNum_eq (sets : ParameterSets) {data : Bytes} (hSize : data.length < 2 ^ 60) :
    parseFrameNum sets data = ofExcept (FrameNum.ofPacket sets data).result := by
  rw [parseFrameNum, scanUnits_eq sets.framing (Nat.lt_trans hSize (by decide)), FrameNum.result_ofPacket]
  cases hScan : scan sets.framing data with
  | error fault => rfl
  | ok result => exact parseSlices_eq sets hSize (FrameNum.slices_laid hScan).within 0

end Reading

section Writing

/-- A frame number of up to 32 bits is moved on words as on integers. -/
theorem adjusted_eq {field : FrameNum} (adjustment : UInt32) (hWidth : field.bitWidth ≤ 32)
    (hValue : field.value < 2 ^ 32) :
    adjusted field adjustment = .ok (field.adjusted adjustment) := by
  have hPower : 2 ^ field.bitWidth ≤ 2 ^ 32 := Nat.pow_le_pow_right Nat.two_pos hWidth
  have hPos := Nat.two_pow_pos field.bitWidth
  have hAdjustment := adjustment.toNat_lt
  rw [adjusted, shl_of_lt (by omega) (by omega), ok_bind, add_of_lt (by omega), ok_bind,
    rem_of_pos (by rw [Nat.one_shiftLeft]; exact hPos)]
  rfl

theorem and_not_or (byte mask : UInt8) : (byte &&& ~~~mask) ||| mask = byte ||| mask := by
  apply UInt8.eq_of_toBitVec_eq
  ext index hIndex
  simp only [UInt8.toBitVec_or, UInt8.toBitVec_and, UInt8.toBitVec_not, BitVec.getElem_or,
    BitVec.getElem_and, BitVec.getElem_not]
  cases byte.toBitVec[index] <;> cases mask.toBitVec[index] <;> rfl

/-- Clearing a bit and setting it to a value sets it, or leaves it cleared. -/
theorem replaceIn_eq (byte : UInt8) (bit : Bool) {shift : Nat} (h : shift < 8) :
    replaceIn byte bit.toNat shift
      = .ok (if bit then byte ||| (1 <<< UInt8.ofNat shift)
          else byte &&& ~~~(1 <<< UInt8.ofNat shift)) := by
  have hMask : ∀ shift < 8,
      shl 8 1 shift = .ok ((1 : UInt8) <<< UInt8.ofNat shift).toNat := by decide
  rw [replaceIn, hMask shift h, ok_bind]
  cases bit with
  | true =>
      rw [Bool.toNat_true, hMask shift h, ok_bind, UInt8.ofNat_toNat, and_not_or]
      rfl
  | false =>
      rw [Bool.toNat_false, shl_of_lt h (by simp), ok_bind, UInt8.ofNat_toNat, Nat.zero_shiftLeft]
      simp
      rfl

/-- Bits are replaced one after the other, as on lists. -/
theorem replaceRun_eq {width value : Nat} (hWidth : width ≤ 32) {count done place : Nat}
    (hCount : done + count = width) {data : Bytes} (hRange : place + count ≤ 8 * data.length) :
    replaceRun width value count done place data
      = .ok (Bits.setRun data place (Bits.ofNat count value)) := by
  induction count generalizing done place data with
  | zero => rfl
  | succ count ih =>
      have hBit : value >>> (width - 1 - done) % 2 = (value.testBit count).toNat := by
        have hPlace : width - 1 - done = count := by omega
        rw [hPlace, Nat.testBit_eq_decide_div_mod_eq, Nat.shiftRight_eq_div_pow]
        rcases Nat.mod_two_eq_zero_or_one (value / 2 ^ count) with h | h <;> rw [h] <;> rfl
      obtain ⟨byte, hByte⟩ := @exists_drop_eq_cons data (place / 8) (by omega)
      have hSet : data.set (place / 8) (if value.testBit count then
            byte ||| (1 <<< UInt8.ofNat (7 - place % 8))
          else byte &&& ~~~(1 <<< UInt8.ofNat (7 - place % 8)))
          = Bits.setBit data place (value.testBit count) := by
        rw [Bits.setBit, List.modify_eq_set, getElem?_of_drop hByte]
        rfl
      rw [replaceRun, sub_of_le (by omega), ok_bind, sub_of_le (by omega), ok_bind,
        shr_of_lt (by omega), ok_bind, hBit, sub_of_le (by omega), ok_bind, index_of_drop hByte,
        ok_bind, replaceIn_eq byte _ (by omega), ok_bind, hSet, Bits.ofNat, Bits.setRun]
      exact ih (by omega) (by rw [Bits.length_setBit]; omega)

/-- Replacing bits in place writes the same bytes, and is refused for the same places. -/
theorem replaceBits_eq {data : Bytes} (hSize : data.length < 2 ^ 60) (offset width value : Nat) :
    replaceBits data offset width value = ofExcept (Bits.overwrite data offset width value) := by
  rw [replaceBits]
  by_cases hWidth : 32 < width
  · rw [if_pos hWidth, Bits.overwrite, if_pos hWidth]
    rfl
  · rw [if_neg hWidth, mul_of_lt (by omega), ok_bind]
    by_cases hRange : 8 * data.length < offset + width
    · rw [if_pos (.inr hRange), Bits.overwrite, if_neg hWidth, if_pos hRange]
      rfl
    · rw [if_neg (by omega), Bits.overwrite_eq_setRun hWidth hRange]
      exact replaceRun_eq (by omega) (Nat.zero_add _) (by omega)

/-- A field that has been read lies in the payload, so writing it meets no hazard either. -/
theorem patchSlice_eq (sets : ParameterSets) (adjustment : UInt32) {data : Bytes} {span : Span}
    (hSize : data.length < 2 ^ 60) (hSpan : span.Within data) :
    patchSlice sets adjustment data span
      = ofExcept ((Renumbered.writeSlice sets adjustment span data).map fun written =>
          (written.2, written.1.adjusted adjustment)) := by
  have hPayload := length_payload_lt span hSize
  rw [patchSlice, payloadOf_eq hSpan hSize, ok_bind, parseField_eq sets hPayload,
    Renumbered.writeSlice]
  cases hField : FrameNum.ofPayload sets (span.payload data) with
  | error fault => rfl
  | ok field =>
      obtain ⟨hWidth, hRange, hValue⟩ := FrameNum.ofPayload_eq_ok hField
      have hWord : field.value < 2 ^ 32 := by
        rw [hValue]
        exact Nat.lt_of_lt_of_le (Bits.field_lt _ _ _) (Nat.pow_le_pow_right Nat.two_pos hWidth)
      rw [ofExcept_ok, ok_bind, adjusted_eq adjustment hWidth hWord, ok_bind, replaceBits_eq hPayload]
      change _ = ofExcept (Except.map _
        ((Bits.overwrite data (field.place span) field.bitWidth (field.adjusted adjustment)).map _))
      rw [FrameNum.overwrite_payload _ hSpan hWidth hRange]
      cases Bits.overwrite (span.payload data) field.bitOffset field.bitWidth
        (field.adjusted adjustment) <;> rfl

/-- Renumbering one slice after another meets no hazard. -/
theorem patchSlices_eq (sets : ParameterSets) (adjustment : UInt32) {spans : List Span} {data : Bytes}
    (hSize : data.length < 2 ^ 60) (hWithin : ∀ span ∈ spans, span.Within data) (last : Nat) :
    patchSlices sets adjustment spans data last
      = ofExcept ((Renumbered.ofSlices sets adjustment spans data last).outcome.result.map
          fun renumbering =>
            ((Renumbered.ofSlices sets adjustment spans data last).data, renumbering)) := by
  induction spans generalizing data last with
  | nil => rfl
  | cons span spans ih =>
      obtain ⟨hHead, hTail⟩ := List.forall_mem_cons.mp hWithin
      rw [patchSlices, patchSlice_eq sets adjustment hSize hHead]
      cases hWrite : Renumbered.writeSlice sets adjustment span data with
      | error fault =>
          rw [(Renumbered.ofSlices_of_error spans last hWrite).2]
          rfl
      | ok pair =>
          obtain ⟨field, written⟩ := pair
          obtain ⟨hData, hResult⟩ := Renumbered.ofSlices_of_ok spans last hWrite
          obtain ⟨_, hOverwrite⟩ := Renumbered.writeSlice_eq_ok hWrite
          have hLength := (Bits.overwrite_eq_ok hOverwrite).2.2.1
          rw [hData, hResult]
          refine ih (hLength ▸ hSize) (fun later hLater => ?_) _
          rw [Span.Within, hLength]
          exact hTail later hLater

/-- Moving the frame numbers of a packet meets no hazard, whatever is in the packet. -/
theorem patchFrameNum_eq (sets : ParameterSets) (adjustment : UInt32) {data : Bytes}
    (hSize : data.length < 2 ^ 60) :
    patchFrameNum sets adjustment data
      = ofExcept ((Renumbered.ofPacket sets adjustment data).outcome.result.map
          fun renumbering => ((Renumbered.ofPacket sets adjustment data).data, renumbering)) := by
  rw [patchFrameNum, scanUnits_eq sets.framing (Nat.lt_trans hSize (by decide)), Renumbered.ofPacket]
  cases hScan : scan sets.framing data with
  | error fault => rfl
  | ok result =>
      have hSlices : result.spans.filter (·.type.isSlice) = FrameNum.slices result := rfl
      have hPatch := patchSlices_eq sets adjustment hSize (FrameNum.slices_laid hScan).within 0
      rw [Except.map, ofExcept_ok, ok_bind, hSlices]
      dsimp only
      split
      case isTrue => rfl
      case isFalse =>
        rw [hPatch, Outcome.result_bind, Outcome.result_note]
        rfl

end Writing

end Cadence.Machine
