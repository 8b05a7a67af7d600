import Cadence.Proofs.Machine.Writer
import Cadence.Proofs.SkipFrame.Size

/-!
Skipped pictures on a machine. The ranges of the parameter sets keep every number of the slice header in
its word, and a length that does not fit its field is refused before it is written.
-/

namespace Cadence

/-- The bits that a mask cuts off are not written anyway. -/
theorem Bits.ofNat_mask (width value : Nat) :
    ofNat width (value &&& (2 ^ width - 1)) = ofNat width value := by
  have hNumber := ofNat_toNat (ofNat width value)
  rw [length_ofNat, toNat_ofNat] at hNumber
  rw [Nat.and_two_pow_sub_one_eq_mod, hNumber]

namespace Machine

open Nal

def writeWeights (s : SkipFrame) : Writing := do
  writeUe 0
  onlyIf (s.sps.chromaFormat ≠ 0) (writeUe 0)
  repeatedly (do
    writeBit 0
    onlyIf (s.sps.chromaFormat ≠ 0) (writeBit 0)) s.pps.defaultRefs0

/-- The number of macroblocks of a picture. -/
def macroblocks (sps : Sps) : Machine Nat := do
  mul 32 sps.widthInMbs (← mul 32 sps.heightInMapUnits (if sps.frameMbsOnly then 1 else 2))

/-- Writes the header byte and the slice header, and the slice data of a picture that is not
arithmetically coded. -/
def writeHeader (s : SkipFrame) (frameNum : Nat) : Writing := do
  writeBits SkipFrame.headerByte 8
  writeUe 0
  writeUe SkipFrame.sliceType
  writeUe 0
  let range ← shl 32 1 s.sps.log2MaxFrameNum
  let mask ← sub range 1
  writeBits (frameNum &&& mask) s.sps.log2MaxFrameNum
  onlyIf s.pps.redundantPicCount (writeUe 0)
  writeBit 0
  writeBit 0
  onlyIf s.pps.weightedPred (writeWeights s)
  onlyIf s.pps.cabac (writeUe 0)
  writeSe (← fitSigned 32 (SkipFrame.qp - s.pps.initialQp))
  onlyIf s.pps.deblockingControl (do
    writeUe 0
    writeSe 0
    writeSe 0)
  onlyIf (¬ s.pps.cabac) (do writeUe (← macroblocks s.sps))

def sliceHeader (s : SkipFrame) (frameNum : Nat) : Machine Bytes := do
  let (_, written) ← writeHeader s frameNum {}
  finish written

/-- The contents of a buffer of `room` bytes after the header of a unit has been written to it. -/
def fill (framing : Framing) (room length : Nat) : Machine Bytes := do
  if room ≠ framing.headerSize then ofExcept (.error (.headerRoom framing.headerSize room))
  match framing with
  | .annexB => do
    assert (room = startCode.length)
    return startCode
  | .lengthPrefixed size => do
    let bound ← shl 64 1 (← mul 32 8 size.bytes)
    if (← sub bound 1) < length then ofExcept (.error (.nalTooLong length size.bytes))
    assert (length < 2 ^ (8 * size.bytes) ∧ size.bytes ≤ 8 ∧ size.bytes ≤ room)
    return bigEndianBytes size.bytes length

/-- The data of a packet with one skipped picture. Room for the header is set aside first. -/
def buildData (s : SkipFrame) (frameNum : Nat) : Machine Bytes := do
  let unit ← sliceHeader s frameNum
  let length ← add 64 unit.length s.sliceData.length
  let _ ← add 64 s.framing.headerSize length
  let buffer := List.replicate s.framing.headerSize 0 ++ (unit ++ s.sliceData)
  let room ← slice buffer 0 s.framing.headerSize
  let header ← fill s.framing room.length length
  return header ++ buffer.drop room.length

def buildPacket (s : SkipFrame) (frameNum : Nat) (dts duration : Ticks) (timeBase : Rational)
    (stream : Nat) : Machine Packet := do
  return { data := ← buildData s frameNum, pts := dts, dts, duration, timeBase, stream }

variable {s : SkipFrame}

section Header

/-- A picture has at most 2 ^ 20 macroblocks. -/
theorem macroblocks_eq (h : s.sps.InRange) (hFrames : s.sps.frameMbsOnly) :
    macroblocks s.sps = .ok (s.sps.mbWidth * s.sps.mbHeight) := by
  have hMbs := SkipFrame.mbs_le h hFrames
  have hHeight := h.height
  rw [Sps.mbWidth, Sps.mbHeight, if_pos hFrames] at hMbs ⊢
  rw [macroblocks, if_pos hFrames, mul_of_lt (by omega), ok_bind, mul_of_lt (by omega)]

/-- The change of the quantiser fits its word for every picture parameter set in range. -/
theorem fitSigned_delta (h : s.pps.InRange) :
    fitSigned 32 (SkipFrame.qp - s.pps.initialQp)
      = .ok (Int32.ofInt (SkipFrame.qp - s.pps.initialQp)).toInt := by
  obtain ⟨hFrom, hTill⟩ := h.initialQp
  have hQp : SkipFrame.qp = 11 := rfl
  rw [Int32.toInt_ofInt_of_le (by omega) (by omega), fitSigned_of_mem (by omega) (by omega)]

namespace Writes

/-- The weights are written as the list of their bits. -/
theorem weights (s : SkipFrame) : Writes (writeWeights s) s.weights := by
  have hWord : Writes (Machine.writeUe 0) (Bits.ue 0) := writeUe (by decide)
  have hFlag : Writes (Machine.writeBit 0) [false] := writeBit 0
  have hRun : Bits.ue 0 ++ ((if s.sps.chromaFormat ≠ 0 then Bits.ue 0 else [])
      ++ (List.replicate s.pps.defaultRefs0
        ([false] ++ if s.sps.chromaFormat ≠ 0 then [false] else [])).flatten) = s.weights := by
    rw [SkipFrame.weights, List.append_assoc]
    split
    case isTrue => rw [← List.flatten_replicate_replicate]; rfl
    case isFalse => rw [← List.flatten_replicate_replicate]; rfl
  rw [← hRun]
  exact hWord.bind (hWord.onlyIf.bind ((hFlag.bind hFlag.onlyIf).repeatedly _))

/-- The whole header is written as the list of its bits, and no step of it leaves a word. -/
theorem header (hPps : s.pps.InRange) (hSps : s.sps.InRange) (hFrames : s.sps.frameMbsOnly)
    (frameNum : Nat) : Writes (writeHeader s frameNum) (s.headerBits frameNum ++ s.runBits) := by
  obtain ⟨_, hWidth⟩ := hSps.numberWidth
  have hPower : 2 ^ s.sps.log2MaxFrameNum ≤ 2 ^ 16 := Nat.pow_le_pow_right Nat.two_pos hWidth
  have hPos := Nat.two_pow_pos s.sps.log2MaxFrameNum
  have hMbs := SkipFrame.mbs_le hSps hFrames
  have hWord : Writes (Machine.writeUe 0) (Bits.ue 0) := writeUe (by decide)
  have hSigned : Writes (Machine.writeSe 0) (Bits.se 0) := writeSe 0
  have hFlag : Writes (Machine.writeBit 0) [false] := writeBit 0
  have hRun : s.runBits = if ¬ s.pps.cabac then Bits.ue (s.sps.mbWidth * s.sps.mbHeight) else [] := by
    rw [SkipFrame.runBits, ite_not]
  have hFlags : [false, false] = [false] ++ [false] := rfl
  rw [SkipFrame.headerBits, hRun, hFlags, ← Bits.ofNat_mask s.sps.log2MaxFrameNum frameNum]
  simp only [List.append_assoc]
  refine (writeBits _ (by decide)).bind (hWord.bind ((writeUe (by decide)).bind (hWord.bind ?_)))
  refine computed (shl_of_lt (by omega) (by omega)) (computed (sub_of_le ?_) ?_)
  · rw [Nat.one_shiftLeft]
    exact hPos
  rw [Nat.one_shiftLeft]
  refine (writeBits _ (hWidth.trans (by decide))).bind (hWord.onlyIf.bind (hFlag.bind (hFlag.bind ?_)))
  refine (weights s).onlyIf.bind (hWord.onlyIf.bind (computed (fitSigned_delta hPps) ((writeSe _).bind ?_)))
  refine (hWord.bind (hSigned.bind hSigned)).onlyIf.bind (onlyIf ?_)
  exact computed (macroblocks_eq hSps hFrames) (writeUe (by omega))

end Writes

end Header

section Data

/-- Bits that are filled up to whole bytes can be so in one way only. -/
theorem eq_of_padded {left right : Bytes} {run : List Bool} {more fewer : Nat}
    (hLeft : Bits.ofBytes left = run ++ List.replicate more false) (hMore : more < 8)
    (hRight : Bits.ofBytes right = run ++ List.replicate fewer false) (hFewer : fewer < 8) :
    left = right := by
  have hLengths := congrArg List.length hLeft
  have hOthers := congrArg List.length hRight
  rw [Bits.length_ofBytes, List.length_append, List.length_replicate] at hLengths hOthers
  obtain rfl : more = fewer := by omega
  exact Bits.ofBytes_injective (hLeft.trans hRight.symm)

/-- The bytes that the writer on words leaves are those of the header. -/
theorem sliceHeader_eq (hPps : s.pps.InRange) (hSps : s.sps.InRange)
    (hFrames : s.sps.frameMbsOnly) (frameNum : Nat) :
    sliceHeader s frameNum = .ok (s.header frameNum) := by
  obtain ⟨written, hWritten, hValid, hBits⟩ :=
    Writes.header hPps hSps hFrames frameNum {} (.whole [])
  obtain ⟨bytes, padding, hFinish, hPadding, hBytes⟩ := finish_eq hValid
  have hHeader := BitWriter.ofBytes_finish
    (BitWriter.empty.writeRun (s.headerBits frameNum ++ s.runBits))
  rw [BitWriter.bits_writeRun, BitWriter.bits_empty, List.nil_append] at hHeader
  rw [hBits] at hBytes
  have hSame : bytes = s.header frameNum :=
    eq_of_padded hBytes hPadding hHeader (BitWriter.padding_lt _)
  rw [sliceHeader, hWritten, ok_bind, ← hSame]
  exact hFinish

/-- The framing in front of a unit is filled in alike, or the unit is too long for it. -/
theorem fill_eq (framing : Framing) (room length : Nat) :
    fill framing room length = ofExcept (framing.fill room length) := by
  unfold fill Framing.fill
  by_cases hRoom : room ≠ framing.headerSize
  · rw [if_pos hRoom, if_pos hRoom]
    rfl
  · rw [if_neg hRoom, if_neg hRoom]
    obtain rfl : room = framing.headerSize := not_not.mp hRoom
    cases framing with
    | annexB =>
        rw [assert_of (show Framing.annexB.headerSize = startCode.length from rfl)]
        rfl
    | lengthPrefixed size =>
        have hSize := size.le_four
        have hPower : 2 ^ (8 * size.bytes) ≤ 2 ^ 32 := Nat.pow_le_pow_right Nat.two_pos (by omega)
        have hPos := Nat.two_pow_pos (8 * size.bytes)
        show (mul 32 8 size.bytes >>= _) = _
        rw [mul_of_lt (by omega), ok_bind, shl_of_lt (by omega) (by omega), ok_bind,
          Nat.one_shiftLeft, sub_of_le hPos, ok_bind, Framing.header, Nat.one_shiftLeft]
        by_cases hLong : length ≥ 2 ^ (8 * size.bytes)
        · rw [if_pos hLong, if_pos (by omega)]
          rfl
        · rw [if_neg hLong, if_neg (by omega), assert_of ⟨by omega, by omega, Nat.le_refl _⟩]
          rfl

/-- Putting together a skipped picture meets no hazard. -/
theorem buildData_eq (hPps : s.pps.InRange) (hSps : s.sps.InRange) (hFrames : s.sps.frameMbsOnly)
    (hSize : s.sliceData.length < 2 ^ 60) (frameNum : Nat) :
    buildData s frameNum = ofExcept (s.data frameNum) := by
  have hHeader := SkipFrame.length_header_le hPps hSps hFrames frameNum
  have hRoom : s.framing.headerSize ≤ 4 := by
    cases s.framing with
    | annexB => exact Nat.le_refl 4
    | lengthPrefixed size => exact size.le_four
  have hFill : s.framing.fill s.framing.headerSize ((s.header frameNum).length + s.sliceData.length)
      = s.framing.header ((s.header frameNum).length + s.sliceData.length) :=
    if_neg (not_not.mpr rfl)
  rw [buildData, sliceHeader_eq hPps hSps hFrames, ok_bind, add_of_lt (by omega), ok_bind,
    add_of_lt (by omega), ok_bind]
  dsimp only
  rw [slice_of_le (Nat.zero_le _) (by simp), ok_bind, List.drop_zero, Nat.sub_zero,
    List.take_left' List.length_replicate, List.length_replicate, fill_eq, hFill,
    List.drop_left' List.length_replicate, SkipFrame.data, List.length_append]
  cases s.framing.header ((s.header frameNum).length + s.sliceData.length) <;> rfl

/-- A skipped picture is built on words as on integers, and fails only by its length. -/
theorem buildPacket_eq (hPps : s.pps.InRange) (hSps : s.sps.InRange) (hFrames : s.sps.frameMbsOnly)
    (hSize : s.sliceData.length < 2 ^ 60) (frameNum : Nat) (dts duration : Ticks)
    (timeBase : Rational) (stream : Nat) :
    buildPacket s frameNum dts duration timeBase stream
      = ofExcept (s.packet frameNum dts duration timeBase stream) := by
  rw [buildPacket, buildData_eq hPps hSps hFrames hSize, SkipFrame.packet]
  cases s.data frameNum <;> rfl

end Data

end Machine

end Cadence
