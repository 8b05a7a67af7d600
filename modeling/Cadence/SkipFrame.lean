import Cadence.Bits.Writer
import Cadence.Nal.Framing
import Cadence.Packet
import Cadence.Pps
import Cadence.Sps

/-!
Skipped pictures. Every macroblock of such a picture is copied from the picture before it, so it can
be written from the parameter sets alone, up to the arithmetically coded body, which comes as a
template. No escape bytes and no stop bit are written.
-/

namespace Cadence

/-- What is needed to write skipped pictures for a stream. -/
structure SkipFrame where
  sps : Sps
  pps : Pps
  framing : Nal.Framing
  /-- Slice data of an arithmetically coded stream, and empty otherwise. -/
  sliceData : Bytes
  deriving DecidableEq, Repr

namespace SkipFrame

/-- The quantiser that skipped pictures name. -/
def qp : Int := 11

/-- The header byte of a slice that no other picture refers to. -/
def headerByte : Nat := 0x01

/-- The slice type of a picture all of whose slices are predicted from one list. -/
def sliceType : Nat := 5

/-- The weights of the references, none of which is given. -/
def weights (s : SkipFrame) : List Bool :=
  let chroma := s.sps.chromaFormat ≠ 0
  let flags := if chroma then 2 else 1
  Bits.ue 0 ++ (if chroma then Bits.ue 0 else [])
    ++ List.replicate (s.pps.defaultRefs0 * flags) false

/-- The syntax elements in front of the slice data, with the header byte. -/
def headerBits (s : SkipFrame) (frameNum : Nat) : List Bool :=
  Bits.ofNat 8 headerByte
    ++ Bits.ue 0 ++ Bits.ue sliceType ++ Bits.ue 0
    ++ Bits.ofNat s.sps.log2MaxFrameNum frameNum
    ++ (if s.pps.redundantPicCount then Bits.ue 0 else [])
    ++ [false, false]
    ++ (if s.pps.weightedPred then s.weights else [])
    ++ (if s.pps.cabac then Bits.ue 0 else [])
    ++ Bits.se (Int32.ofInt (qp - s.pps.initialQp))
    ++ (if s.pps.deblockingControl then Bits.ue 0 ++ Bits.se 0 ++ Bits.se 0 else [])

/-- One run of skipped macroblocks over the whole picture. -/
def runBits (s : SkipFrame) : List Bool :=
  if s.pps.cabac then [] else Bits.ue (s.sps.mbWidth * s.sps.mbHeight)

/-- Header byte and slice header, filled up to whole bytes. Without arithmetic coding the slice data
is a single code word and is written here too. -/
def header (s : SkipFrame) (frameNum : Nat) : Bytes :=
  (BitWriter.empty.writeRun (s.headerBits frameNum ++ s.runBits)).finish

/-- The data of a packet with one skipped picture. -/
def data (s : SkipFrame) (frameNum : Nat) : Except Fault Bytes := do
  let unit := s.header frameNum ++ s.sliceData
  return (← s.framing.header unit.length) ++ unit

/-- A packet with one skipped picture, which is shown when it is decoded. -/
def packet (s : SkipFrame) (frameNum : Nat) (dts duration : Ticks) (timeBase : Rational)
    (stream : Nat) : Except Fault Packet := do
  return { data := ← s.data frameNum, pts := dts, dts, duration, timeBase, stream }

end SkipFrame

end Cadence
