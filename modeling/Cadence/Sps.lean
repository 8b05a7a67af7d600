import Cadence.Bits.Reader

/-!
Sequence parameter sets, read as far as the cropping rectangle: chroma format, the width of the
frame number, picture order count type, reference frames and picture size.
-/

namespace Cadence

open BitReader

/-- What is kept of a sequence parameter set. -/
structure Sps where
  profile : Nat
  level : Nat
  id : Nat
  /-- 0 for monochrome, then 4:2:0, 4:2:2 and 4:4:4. -/
  chromaFormat : Nat
  /-- The width in bits of the frame number in slice headers. -/
  log2MaxFrameNum : Nat
  pocType : Nat
  maxRefFrames : Nat
  frameNumGapsAllowed : Bool
  /-- Picture width in macroblocks. -/
  widthInMbs : Nat
  /-- Picture height in map units, which are two macroblocks high where fields may occur. -/
  heightInMapUnits : Nat
  frameMbsOnly : Bool
  /-- Width in pixels after cropping. -/
  width : Nat
  /-- Height in pixels after cropping. -/
  height : Nat
  deriving DecidableEq, Repr

namespace Sps

def mbWidth (sps : Sps) : Nat :=
  sps.widthInMbs

/-- Macroblock rows of a frame. -/
def mbHeight (sps : Sps) : Nat :=
  sps.heightInMapUnits * if sps.frameMbsOnly then 1 else 2

/-- Frame numbers are counted modulo this. -/
def maxFrameNum (sps : Sps) : Nat :=
  1 <<< sps.log2MaxFrameNum

/-- The profile carries chroma format, bit depths and scaling lists. -/
def hasChromaFields (profile : Nat) : Bool :=
  [100, 110, 122, 244, 44, 83, 86, 118, 128, 138, 139, 134, 135].contains profile

/-- How chroma samples are stored. -/
structure Chroma where
  format : Nat
  separatePlanes : Bool
  deriving DecidableEq, Repr

/-- Planes that are coded separately are treated like monochrome pictures. -/
def Chroma.arrayType (chroma : Chroma) : Nat :=
  if chroma.separatePlanes then 0 else chroma.format

/-- Skips the `count` remaining entries of a scaling list. No deltas follow once a scale is zero. -/
def skipScalingList : (count : Nat) → (last next : Int) → Read Unit
  | 0, _, _ => pure ()
  | count + 1, last, next => do
    if next = 0 then return
    let delta ← readSe
    if delta < -128 ∨ delta > 127 then throw (.scalingDelta delta)
    let next := (last + delta + 256) % 256
    skipScalingList count (if next = 0 then last else next) next

/-- Skips the scaling lists from `index` on, of which `count` are left. Each may be absent, and the
first six are the short ones. -/
def skipScalingLists : (count index : Nat) → Read Unit
  | 0, _ => pure ()
  | count + 1, index => do
    if ← readBit then
      skipScalingList (if index < 6 then 16 else 64) 8 8
    skipScalingLists count (index + 1)

/-- The chroma format, and the flag for separate planes where it stands. -/
def readFormat : Read (Nat × Bool) := do
  let format ← readUe
  if format > 3 then throw (.chromaFormat format)
  let separatePlanes ← if format = 3 then readBit else pure false
  return (format, separatePlanes)

/-- Reads what stands behind the chroma format: bit depths, which are checked once 8 has been added to
them, and scaling lists, which are skipped. -/
def readDepths (format : Nat) (separatePlanes : Bool) : Read Chroma := do
  let luma ← fit ((← readUe) + 8)
  let chroma ← fit ((← readUe) + 8)
  if luma > 14 ∨ chroma > 14 then throw (.bitDepth luma chroma)
  skipBits 1
  if ← readBit then
    skipScalingLists (if format = 3 then 12 else 8) 0
  return ⟨format, separatePlanes⟩

/-- Reads the fields that only some profiles carry. -/
def readChroma (profile : Nat) : Read Chroma := do
  if !hasChromaFields profile then
    return ⟨1, false⟩
  let format ← readFormat
  readDepths format.1 format.2

/-- Reads the picture order count type and skips what belongs to it. -/
def readPocType : Read Nat := do
  let pocType ← readUe
  match pocType with
  | 0 =>
    let lsb ← readUe
    if lsb > 12 then throw (.log2MaxPocLsb lsb)
  | 1 =>
    skipBits 1
    skipMany readSe 2
    let cycle ← readUe
    if cycle > 255 then throw (.pocCycle cycle)
    skipMany readSe cycle
  | 2 => pure ()
  | _ => throw (.pocType pocType)
  return pocType

/-- Samples to cut off at each side, in cropping units. -/
structure Cropping where
  left : Nat
  right : Nat
  top : Nat
  bottom : Nat
  deriving DecidableEq, Repr

def readCropping : Read Cropping := do
  if ← readBit then
    return ⟨← readUe, ← readUe, ← readUe, ← readUe⟩
  else
    return ⟨0, 0, 0, 0⟩

/-- Width and height of a cropping unit in samples. -/
def croppingUnit (arrayType : Nat) (frameMbsOnly : Bool) : Nat × Nat :=
  let rows := if frameMbsOnly then 1 else 2
  match arrayType with
  | 1 => (2, 2 * rows)
  | 2 => (2, rows)
  | _ => (1, rows)

def read : Read Sps := do
  let profile ← readBits 8
  skipMany (readBits 8) 1
  let level ← readBits 8
  let id ← readUe
  if id > 31 then throw (.spsId id)
  let chroma ← readChroma profile
  let frameNumBits ← readUe
  if frameNumBits > 12 then throw (.log2MaxFrameNum frameNumBits)
  let pocType ← readPocType
  let maxRefFrames ← readUe
  if maxRefFrames > 16 then throw (.refFrames maxRefFrames)
  let frameNumGapsAllowed ← readBit
  let widthInMbs := (← readUe) + 1
  let heightInMapUnits := (← readUe) + 1
  if widthInMbs > 1024 ∨ heightInMapUnits > 1024 then
    throw (.pictureSize widthInMbs heightInMapUnits)
  let frameMbsOnly ← readBit
  if !frameMbsOnly then skipBits 1
  skipBits 1
  let cropping ← readCropping
  let unit := croppingUnit chroma.arrayType frameMbsOnly
  let codedWidth := widthInMbs * 16
  let codedHeight := heightInMapUnits * if frameMbsOnly then 16 else 32
  let cropX := (cropping.left + cropping.right) * unit.1
  let cropY := (cropping.top + cropping.bottom) * unit.2
  if cropX ≥ codedWidth ∨ cropY ≥ codedHeight then
    throw (.cropping codedWidth codedHeight cropX cropY)
  return {
    profile, level, id, chromaFormat := chroma.format, log2MaxFrameNum := frameNumBits + 4, pocType,
    maxRefFrames, frameNumGapsAllowed, widthInMbs, heightInMapUnits, frameMbsOnly,
    width := codedWidth - cropX, height := codedHeight - cropY }

/-- Reads a sequence parameter set from the payload of its NAL unit, without escape bytes. -/
def ofRbsp (rbsp : Bytes) : Except Fault Sps :=
  if rbsp.length < 4 then .error .spsTooShort else read.value? rbsp

end Sps

end Cadence
