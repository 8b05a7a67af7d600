import Cadence.Bits.Reader

/-!
Picture parameter sets, read as far as the flag for redundant pictures. What may follow has no
bearing on the start of a slice header.
-/

namespace Cadence

open BitReader

/-- What is kept of a picture parameter set. -/
structure Pps where
  id : Nat
  /-- The sequence parameter set that it refers to. -/
  spsId : Nat
  /-- Slice data is arithmetically coded. -/
  cabac : Bool
  picOrderPresent : Bool
  sliceGroups : Nat
  /-- Zero if there is one slice group. -/
  sliceGroupMap : Nat
  defaultRefs0 : Nat
  defaultRefs1 : Nat
  weightedPred : Bool
  weightedBipred : Nat
  initialQp : Int
  chromaQpOffset : Int
  deblockingControl : Bool
  constrainedIntraPred : Bool
  redundantPicCount : Bool
  deriving DecidableEq, Repr

namespace Pps

/-- Reads the type of the slice group map and skips the map itself. There are `extra` slice groups
besides the first. -/
def readSliceGroupMap (extra : Nat) : Read Nat := do
  let mapType ← readUe
  match mapType with
  | 0 => skipMany readUe (extra + 1)
  | 1 => pure ()
  | 2 => skipMany readUe (2 * extra)
  | 3 | 4 | 5 =>
    skipBits 1
    skipMany readUe 1
  | 6 =>
    let mapUnits := (← readUe) + 1
    skipBits (mapUnits * (extra.log2 + 1))
  | _ => throw (.sliceGroupMap mapType)
  return mapType

def read : Read Pps := do
  let id ← readUe
  if id > 255 then throw (.ppsId id)
  let spsId ← readUe
  if spsId > 31 then throw (.spsId spsId)
  let cabac ← readBit
  let picOrderPresent ← readBit
  let extraGroups ← readUe
  if extraGroups > 7 then throw (.sliceGroups extraGroups)
  let sliceGroupMap ← if extraGroups > 0 then readSliceGroupMap extraGroups else pure 0
  let defaultRefs0 := (← readUe) + 1
  let defaultRefs1 := (← readUe) + 1
  if defaultRefs0 > 32 ∨ defaultRefs1 > 32 then throw (.defaultRefs defaultRefs0 defaultRefs1)
  let weightedPred ← readBit
  let weightedBipred ← readBits 2
  if weightedBipred > 2 then throw (.weightedBipred weightedBipred)
  let initialQp ← fitSigned (26 + (← readSe))
  if initialQp < 0 ∨ initialQp > 51 then throw (.initialQp initialQp)
  skipMany readSe 1
  let chromaQpOffset ← readSe
  if chromaQpOffset < -12 ∨ chromaQpOffset > 12 then throw (.chromaQpOffset chromaQpOffset)
  let deblockingControl ← readBit
  let constrainedIntraPred ← readBit
  let redundantPicCount ← readBit
  return {
    id, spsId, cabac, picOrderPresent, sliceGroups := extraGroups + 1, sliceGroupMap, defaultRefs0,
    defaultRefs1, weightedPred, weightedBipred, initialQp, chromaQpOffset, deblockingControl,
    constrainedIntraPred, redundantPicCount }

/-- Reads a picture parameter set from the payload of its NAL unit, without escape bytes. -/
def ofRbsp (rbsp : Bytes) : Except Fault Pps :=
  if rbsp.isEmpty then .error .emptyPps else read.value? rbsp

end Pps

end Cadence
