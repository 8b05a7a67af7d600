import Cadence.Proofs.Machine.Builds
import Cadence.Proofs.ParameterSets.PictureTree
import Cadence.Proofs.ParameterSets.SequenceTree

/-!
Parameter sets on a machine, built with checks and without. Of all that is worked out while a set is read,
two kinds of results can leave their words, as they are only looked at afterwards: the bit depths of a
sequence parameter set, and the quantiser of a picture parameter set (`parameterSets_divergesIf`). A build
without checks then goes on with another depth, and may take it for a legal one (`sequenceSet_sampleDeep`).
-/

namespace Cadence

open BitReader (Code SignedCode Decodes)

namespace Sps

/-- One of the two bit depths that are read next has no word: 8 more than its code is beyond 32 bits. -/
def LargeDepths (word : List Bool) : Prop :=
  ∃ (luma : Code) (back : List Bool), word = Bits.ue luma.val ++ back ∧
    (2 ^ 32 ≤ luma.val + 8 ∨
      ∃ (chroma : Code) (rest : List Bool), back = Bits.ue chroma.val ++ rest ∧ 2 ^ 32 ≤ chroma.val + 8)

/-- A set is read up to its bit depths, one of which has no word. -/
def DepthLeavesWord (word : List Bool) : Prop :=
  ∃ (profile constraints level : UInt8) (id : Fin 32) (format : ChromaFormat) (back : List Bool),
    hasChromaFields profile.toNat ∧
      word = Bits.ofByte profile ++ Bits.ofByte constraints ++ Bits.ofByte level ++ Bits.ue id
        ++ format.bits ++ back ∧
      LargeDepths back

end Sps

namespace Pps

/-- A set is read up to its quantiser, which has no word: 26 more than its code is beyond 32 bits. -/
def QpLeavesWord (word : List Bool) : Prop :=
  ∃ (front : Front) (delta : SignedCode) (back : List Bool),
    word = front.bits ++ Bits.se delta.val ++ back ∧ 2 ^ 31 ≤ 26 + delta.val.toInt

theorem decodes_head : Decodes readHead Front.bits Front.head where
  reads := reads_head
  exists_item := rest_of_head

end Pps

namespace Machine.Build

variable (build : Build)

section Pictures

open Pps

/-- The zero bits of a 32-bit word in front of its first one bit. -/
def leadingZeros (value : Nat) : Nat :=
  if value = 0 then 32 else 31 - value.log2

def readSliceGroupMap (extra : Nat) : Reader Nat := do
  let mapType ← readUe
  match mapType with
  | 0 => skipMany readUe (extra + 1)
  | 1 => pure ()
  | 2 => skipMany readUe (2 * extra)
  | 3 | 4 | 5 =>
    build.skipBits 1
    skipMany readUe 1
  | 6 =>
    let mapUnits ← build.add 64 (← readUe) 1
    let idBits ← build.sub 32 32 (leadingZeros extra)
    build.skipBits (← build.mul 64 mapUnits idBits)
  | _ => ofExcept (.error (.sliceGroupMap mapType))
  return mapType

def readHead : Reader Head := do
  let id ← readUe
  if id > 255 then ofExcept (.error (.ppsId id))
  let spsId ← readUe
  if spsId > 31 then ofExcept (.error (.spsId spsId))
  let cabac ← readBit
  let picOrderPresent ← readBit
  let extraGroups ← readUe
  if extraGroups > 7 then ofExcept (.error (.sliceGroups extraGroups))
  let sliceGroupMap ← if extraGroups > 0 then build.readSliceGroupMap extraGroups else pure 0
  let defaultRefs0 ← build.add 32 (← readUe) 1
  let defaultRefs1 ← build.add 32 (← readUe) 1
  if defaultRefs0 > 32 ∨ defaultRefs1 > 32 then
    ofExcept (.error (.defaultRefs defaultRefs0 defaultRefs1))
  let weightedPred ← readBit
  let weightedBipred ← readBits 2
  if weightedBipred > 2 then ofExcept (.error (.weightedBipred weightedBipred))
  let sliceGroups ← build.add 32 extraGroups 1
  return {
    id, spsId, cabac, picOrderPresent, sliceGroups, sliceGroupMap, defaultRefs0, defaultRefs1,
    weightedPred, weightedBipred }

def readTail (head : Head) (initialQp : Int) : Reader Pps := do
  if initialQp < 0 ∨ initialQp > 51 then ofExcept (.error (.initialQp initialQp))
  skipMany build.readSe 1
  let chromaQpOffset ← build.readSe
  if chromaQpOffset < -12 ∨ chromaQpOffset > 12 then
    ofExcept (.error (.chromaQpOffset chromaQpOffset))
  let deblockingControl ← readBit
  let constrainedIntraPred ← readBit
  let redundantPicCount ← readBit
  return { head with
    initialQp, chromaQpOffset, deblockingControl, constrainedIntraPred, redundantPicCount }

def readPps : Reader Pps := do
  let head ← build.readHead
  let delta ← build.readSe
  let initialQp ← build.addSigned 32 26 delta
  build.readTail head initialQp

/-- A picture parameter set in the payload of its unit. -/
def pictureSet (rbsp : Bytes) : Machine Pps :=
  if rbsp.isEmpty then ofExcept (.error .emptyPps) else build.readPps.value? rbsp

/-- Every kind of slice group map is read as on integers. -/
theorem agrees_readSliceGroupMap {extra : Nat} (hSome : 0 < extra) (hFew : extra ≤ 7) :
    Agrees (build.readSliceGroupMap extra) (Pps.readSliceGroupMap extra) := by
  have hOther : extra ≠ 0 := Nat.pos_iff_ne_zero.mp hSome
  have hLog : extra.log2 < 3 := (Nat.log2_lt hOther).mpr (Nat.lt_succ_of_le hFew)
  unfold readSliceGroupMap Pps.readSliceGroupMap
  refine Agrees.readUe.bind fun mapType r s hType => ?_
  match mapType with
  | 0 => exact (Agrees.readUe.skipMany _).bind fun _ _ _ _ => .pure 0
  | 1 => exact .pure 1
  | 2 => exact (Agrees.readUe.skipMany _).bind fun _ _ _ _ => .pure 2
  | 3 | 4 | 5 =>
      refine (build.agrees_skipBits 1).bind fun _ _ _ _ => ?_
      exact (Agrees.readUe.skipMany 1).bind fun _ _ _ _ => .pure _
  | 6 =>
      refine build.agrees_oneMore (by decide) fun units hUnits => ?_
      have hArea : (units + 1) * (extra.log2 + 1) ≤ (units + 1) * 3 := Nat.mul_le_mul_left _ (by omega)
      have hZeros : leadingZeros extra = 31 - extra.log2 := if_neg hOther
      have hId : 32 - (31 - extra.log2) = extra.log2 + 1 := by omega
      rw [hZeros, build.sub_of_le (by omega) (by decide),
        lift_ok_bind, hId, build.mul_of_lt (by omega)]
      exact (build.agrees_skipBits _).bind fun _ _ _ _ => .pure 6
  | n + 7 => exact .refused rfl _ _

/-- The fields before the quantiser are read as on integers. -/
theorem agrees_readHead : Agrees build.readHead Pps.readHead := by
  unfold readHead Pps.readHead
  refine Agrees.readUe.bind fun id _ _ _ => .guard rfl fun _ => ?_
  refine Agrees.readUe.bind fun spsId _ _ _ => .guard rfl fun _ => ?_
  refine Agrees.readBit.bind fun cabac _ _ _ => Agrees.readBit.bind fun picOrder _ _ _ => ?_
  refine Agrees.readUe.bind fun extra _ _ _ => .guard rfl fun hFew => ?_
  have hMap (hSome : extra > 0) := build.agrees_readSliceGroupMap hSome (by omega)
  refine .either hMap (fun _ => .pure 0) fun map => ?_
  refine build.agrees_oneMore (by decide) fun refs0 _ => ?_
  refine build.agrees_oneMore (by decide) fun refs1 _ => ?_
  refine .guard rfl fun _ => Agrees.readBit.bind fun weighted _ _ _ => ?_
  refine (Agrees.readBits 2).bind fun bipred _ _ _ => .guard rfl fun _ => ?_
  rw [build.add_of_lt (by omega)]
  exact .pure _

/-- The fields behind the quantiser are read as on integers. -/
theorem agrees_readTail (head : Head) (initialQp : Int) :
    Agrees (build.readTail head initialQp) (Pps.readTail head initialQp) := by
  unfold readTail Pps.readTail
  refine .guard rfl fun _ => (build.agrees_readSe.skipMany 1).bind fun _ _ _ _ => ?_
  refine build.agrees_readSe.bind fun offset _ _ _ => .guard rfl fun _ => ?_
  refine Agrees.readBit.bind fun deblocking _ _ _ => Agrees.readBit.bind fun intra _ _ _ => ?_
  exact Agrees.readBit.bind fun redundant _ _ _ => .pure _

/-- Only the quantiser can leave its word. -/
theorem agrees_readPps : AgreesUnless build QpLeavesWord build.readPps Pps.read := by
  rw [Pps.read_eq]
  have hRead : AgreesUnless build (fun word => ∃ (front : Front) (back : List Bool),
      word = front.bits ++ back ∧ ∃ (delta : SignedCode) (rest : List Bool),
        back = Bits.se delta.val ++ rest ∧ 2 ^ 31 ≤ 26 + delta.val.toInt)
      build.readPps
      (Pps.readHead >>= fun head => BitReader.readSe >>= fun delta =>
        BitReader.fitSigned (26 + delta) >>= Pps.readTail head) := by
    refine .behind build.agrees_readHead decodes_head fun front => ?_
    refine .behind build.agrees_readSe .signedCode fun delta => ?_
    have hDelta := delta.toInt_range
    exact .last (.fitSigned build (by omega)) (build.agrees_readTail front.head)
  refine hRead.congr fun word => ?_
  constructor
  · rintro ⟨front, _, rfl, delta, back, rfl, hOver⟩
    exact ⟨front, delta, back, by rw [List.append_assoc], hOver⟩
  · rintro ⟨front, delta, back, rfl, hOver⟩
    exact ⟨front, _, by rw [List.append_assoc], delta, back, rfl, hOver⟩

/-- The builds part on a picture parameter set exactly if its quantiser leaves the word. -/
theorem pictureSet_divergesIf {rbsp : Bytes} (hSize : rbsp.length < 2 ^ 60) :
    DivergesIf (QpLeavesWord (Bits.ofBytes rbsp)) (fun build => build.pictureSet rbsp) (Pps.ofRbsp rbsp) := by
  unfold pictureSet Pps.ofRbsp
  by_cases hEmpty : rbsp.isEmpty
  · simp only [if_pos hEmpty]
    refine .refused ?_ rfl
    rintro ⟨front, delta, back, hWord, -⟩
    have hLength := congrArg List.length hWord
    rw [List.isEmpty_iff.mp hEmpty] at hLength
    simp only [Front.bits, List.length_append, Bits.ofBytes_nil, List.length_nil, Bits.length_ue]
      at hLength
    omega
  · simp only [if_neg hEmpty]
    exact .value? agrees_readPps hSize

end Pictures

section Sequences

open Sps

/-- Skips the entries of a scaling list that are left. Those behind a scale of zero have no bits. -/
def skipScalingList : (count : Nat) → (last next : Int) → Reader Unit
  | 0, _, _ => pure ()
  | count + 1, last, next => do
    if next = 0 then skipScalingList count last next
    else
      let delta ← build.readSe
      if delta < -128 ∨ delta > 127 then ofExcept (.error (.scalingDelta delta))
      let sum ← build.addSigned 32 last delta
      let next := (← build.addSigned 32 sum 256).tmod 256
      skipScalingList count (if next = 0 then last else next) next

def skipScalingLists : (count index : Nat) → Reader Unit
  | 0, _ => pure ()
  | count + 1, index => do
    if ← readBit then
      build.skipScalingList (if index < 6 then 16 else 64) 8 8
    skipScalingLists count (index + 1)

def readFormat : Reader (Nat × Bool) := do
  let format ← readUe
  if format > 3 then ofExcept (.error (.chromaFormat format))
  let separatePlanes ← if format = 3 then readBit else pure false
  return (format, separatePlanes)

def readDepths (format : Nat) (separatePlanes : Bool) : Reader Chroma := do
  let lumaCode ← readUe
  let luma ← build.add 32 lumaCode 8
  let chromaCode ← readUe
  let chroma ← build.add 32 chromaCode 8
  if luma > 14 ∨ chroma > 14 then ofExcept (.error (.bitDepth luma chroma))
  build.skipBits 1
  if ← readBit then
    build.skipScalingLists (if format = 3 then 12 else 8) 0
  return ⟨format, separatePlanes⟩

def readChroma (profile : Nat) : Reader Chroma := do
  if !hasChromaFields profile then return ⟨1, false⟩
  let format ← readFormat
  build.readDepths format.1 format.2

def readPocType : Reader Nat := do
  let pocType ← readUe
  match pocType with
  | 0 =>
    let lsb ← readUe
    if lsb > 12 then ofExcept (.error (.log2MaxPocLsb lsb))
  | 1 =>
    build.skipBits 1
    skipMany build.readSe 2
    let cycle ← readUe
    if cycle > 255 then ofExcept (.error (.pocCycle cycle))
    skipMany build.readSe cycle
  | 2 => pure ()
  | _ => ofExcept (.error (.pocType pocType))
  return pocType

def readCropping : Reader Cropping := do
  if ← readBit then
    return ⟨← readUe, ← readUe, ← readUe, ← readUe⟩
  else
    return ⟨0, 0, 0, 0⟩

def croppingUnit (arrayType : Nat) (frameMbsOnly : Bool) : Machine (Nat × Nat) :=
  let rows := if frameMbsOnly then 1 else 2
  match arrayType with
  | 1 => do return (2, ← build.mul 32 2 rows)
  | 2 => return (2, rows)
  | _ => return (1, rows)

/-- The size of a picture after cropping, which is worked out in 64 bits and kept in 32. -/
def croppedSize (columns rows arrayType : Nat) (frameMbsOnly : Bool) (cropping : Cropping) :
    Machine (Nat × Nat) := do
  let unit ← build.croppingUnit arrayType frameMbsOnly
  let codedWidth ← build.mul 32 columns 16
  let codedHeight ← build.mul 32 rows (if frameMbsOnly then 16 else 32)
  let across ← build.add 64 cropping.left cropping.right
  let down ← build.add 64 cropping.top cropping.bottom
  let cropX ← build.mul 64 across unit.1
  let cropY ← build.mul 64 down unit.2
  if cropX ≥ codedWidth ∨ cropY ≥ codedHeight then
    ofExcept (.error (.cropping codedWidth codedHeight cropX cropY))
  let width ← build.sub 32 codedWidth (cropX % 2 ^ 32)
  let height ← build.sub 32 codedHeight (cropY % 2 ^ 32)
  return (width, height)

def readSps : Reader Sps := do
  let profile ← readBits 8
  skipMany (readBits 8) 1
  let level ← readBits 8
  let id ← readUe
  if id > 31 then ofExcept (.error (.spsId id))
  let chroma ← build.readChroma profile
  let frameNumBits ← readUe
  if frameNumBits > 12 then ofExcept (.error (.log2MaxFrameNum frameNumBits))
  let pocType ← build.readPocType
  let maxRefFrames ← readUe
  if maxRefFrames > 16 then ofExcept (.error (.refFrames maxRefFrames))
  let frameNumGapsAllowed ← readBit
  let widthInMbs ← build.add 32 (← readUe) 1
  let heightInMapUnits ← build.add 32 (← readUe) 1
  if widthInMbs > 1024 ∨ heightInMapUnits > 1024 then
    ofExcept (.error (.pictureSize widthInMbs heightInMapUnits))
  let frameMbsOnly ← readBit
  if !frameMbsOnly then build.skipBits 1
  build.skipBits 1
  let cropping ← readCropping
  let (width, height) ←
    build.croppedSize widthInMbs heightInMapUnits chroma.arrayType frameMbsOnly cropping
  let log2MaxFrameNum ← build.add 32 frameNumBits 4
  return {
    profile, level, id, chromaFormat := chroma.format, log2MaxFrameNum, pocType, maxRefFrames,
    frameNumGapsAllowed, widthInMbs, heightInMapUnits, frameMbsOnly, width, height }

/-- A sequence parameter set in the payload of its unit. -/
def sequenceSet (rbsp : Bytes) : Machine Sps :=
  if rbsp.length < 4 then ofExcept (.error .spsTooShort) else build.readSps.value? rbsp

theorem skipScalingList_zero (count : Nat) (last : Int) :
    build.skipScalingList count last 0 = pure () := by
  induction count with
  | zero => rfl
  | succ count ih =>
      rw [skipScalingList, if_pos rfl]
      exact ih

/-- Scales stay below 256, and no sum of two of them comes near the end of a word. -/
theorem agrees_skipScalingList {count : Nat} {last next : Int} (h : 0 ≤ last ∧ last < 256) :
    Agrees (build.skipScalingList count last next) (Sps.skipScalingList count last next) := by
  induction count generalizing last next with
  | zero => exact .pure ()
  | succ count ih =>
      rw [skipScalingList, Sps.skipScalingList]
      by_cases hZero : next = 0
      · rw [if_pos hZero, if_pos hZero, hZero, skipScalingList_zero]
        exact .pure ()
      · rw [if_neg hZero, if_neg hZero]
        refine build.agrees_readSe.bind fun delta _ _ _ => .guard rfl fun hRange => ?_
        have hSum : build.addSigned 32 last delta = .ok (last + delta) :=
          build.fitSigned_of_mem (by omega) (by omega)
        have hShifted : build.addSigned 32 (last + delta) 256 = .ok (last + delta + 256) :=
          build.fitSigned_of_mem (by omega) (by omega)
        rw [hSum, lift_ok_bind, hShifted, lift_ok_bind, Int.tmod_eq_emod_of_nonneg (by omega)]
        refine ih ?_
        split <;> omega

/-- Scaling lists are skipped as on integers, one after the other. -/
theorem agrees_skipScalingLists (count index : Nat) :
    Agrees (build.skipScalingLists count index) (Sps.skipScalingLists count index) := by
  induction count generalizing index with
  | zero => exact .pure ()
  | succ count ih =>
      rw [skipScalingLists, Sps.skipScalingLists]
      refine Agrees.readBit.bind fun present _ _ _ => ?_
      exact .onlyIf (build.agrees_skipScalingList (by decide)) (ih _)

theorem agrees_readFormat : Agrees readFormat Sps.readFormat := by
  unfold readFormat Sps.readFormat
  refine Agrees.readUe.bind fun format _ _ _ => .guard rfl fun _ => ?_
  exact .either (fun _ => .readBit) (fun _ => .pure false) fun separate => .pure _

/-- The bit depths are read as on integers, unless one of them leaves its word. -/
theorem agrees_readDepths (format : Nat) (separatePlanes : Bool) :
    AgreesUnless build LargeDepths (build.readDepths format separatePlanes)
      (Sps.readDepths format separatePlanes) := by
  unfold readDepths Sps.readDepths
  refine .behind .readUe .code fun luma => .compute (.fit build (luma.val + 8)) fun lumaDepth => ?_
  refine .behind .readUe .code fun chroma => .last (.fit build (chroma.val + 8)) fun chromaDepth => ?_
  refine .guard rfl fun _ => (build.agrees_skipBits 1).bind fun _ _ _ _ => ?_
  exact Agrees.readBit.bind fun _ _ _ _ => .onlyIf (build.agrees_skipScalingLists _ 0) (.pure _)

/-- The chroma fields are read as on integers, unless a bit depth behind the format leaves its
word. -/
theorem agrees_readChroma (profile : Nat) :
    AgreesUnless build (fun word => hasChromaFields profile ∧
        ∃ (format : ChromaFormat) (back : List Bool), word = format.bits ++ back ∧ LargeDepths back)
      (build.readChroma profile) (Sps.readChroma profile) := by
  by_cases hProfile : hasChromaFields profile
  · rw [readChroma, if_neg (by simp [hProfile]), readChroma_eq hProfile]
    refine (AgreesUnless.behind agrees_readFormat decodes_format fun format =>
      build.agrees_readDepths format.idc format.separatePlanes).congr fun word => ?_
    exact (and_iff_right hProfile).symm
  · rw [readChroma, if_pos (by simp [hProfile]), Sps.readChroma, if_pos (by simp [hProfile])]
    exact (Agrees.pure _).unless.congr fun word => iff_of_false id fun h => hProfile h.1

/-- The fields of the picture order count are read as on integers. -/
theorem agrees_readPocType : Agrees build.readPocType Sps.readPocType := by
  unfold readPocType Sps.readPocType
  refine Agrees.readUe.bind fun pocType _ _ _ => ?_
  match pocType with
  | 0 => exact Agrees.readUe.bind fun _ _ _ _ => .guard rfl fun _ => .pure 0
  | 1 =>
      refine (build.agrees_skipBits 1).bind fun _ _ _ _ => ?_
      refine (build.agrees_readSe.skipMany 2).bind fun _ _ _ _ => ?_
      refine Agrees.readUe.bind fun cycle _ _ _ => .guard rfl fun _ => ?_
      exact (build.agrees_readSe.skipMany cycle).bind fun _ _ _ _ => .pure 1
  | 2 => exact .pure 2
  | n + 3 => exact .refused rfl _ _

theorem agrees_readCropping : Agrees readCropping Sps.readCropping := by
  unfold readCropping Sps.readCropping
  refine Agrees.readBit.bind fun shown _ _ _ => ?_
  cases shown with
  | false => exact .pure _
  | true =>
      refine Agrees.readUe.bind fun left _ _ _ => Agrees.readUe.bind fun right _ _ _ => ?_
      exact Agrees.readUe.bind fun top _ _ _ => Agrees.readUe.bind fun bottom _ _ _ => .pure _

/-- Each of the four borders that are read fits a word. -/
theorem fits_of_readCropping {cropping : Cropping} {r s : BitReader}
    (h : Sps.readCropping r = .ok cropping s) : cropping.Fits := by
  unfold Sps.readCropping at h
  obtain ⟨shown, _, _, h⟩ := BitReader.bind_eq_ok.mp h
  cases shown with
  | false =>
      cases h
      exact ⟨by decide, by decide, by decide, by decide⟩
  | true =>
      obtain ⟨left, _, hLeft, h⟩ := BitReader.bind_eq_ok.mp h
      obtain ⟨right, _, hRight, h⟩ := BitReader.bind_eq_ok.mp h
      obtain ⟨top, _, hTop, h⟩ := BitReader.bind_eq_ok.mp h
      obtain ⟨bottom, _, hBottom, h⟩ := BitReader.bind_eq_ok.mp h
      cases h
      exact ⟨(BitReader.readUe_eq_ok hLeft).1, (BitReader.readUe_eq_ok hRight).1,
        (BitReader.readUe_eq_ok hTop).1, (BitReader.readUe_eq_ok hBottom).1⟩

theorem croppingUnit_eq (arrayType : Nat) (frameMbsOnly : Bool) :
    build.croppingUnit arrayType frameMbsOnly = .ok (Sps.croppingUnit arrayType frameMbsOnly) := by
  unfold croppingUnit Sps.croppingUnit
  match arrayType with
  | 1 => cases build <;> cases frameMbsOnly <;> rfl
  | 2 => rfl
  | 0 | n + 3 => rfl

/-- A border is counted in units of at most two columns and four rows. -/
theorem croppingUnit_le (arrayType : Nat) (frameMbsOnly : Bool) :
    (Sps.croppingUnit arrayType frameMbsOnly).1 ≤ 2 ∧ (Sps.croppingUnit arrayType frameMbsOnly).2 ≤ 4 := by
  unfold Sps.croppingUnit
  match arrayType with
  | 1 | 2 | 0 | n + 3 =>
    cases frameMbsOnly <;> exact ⟨Nat.le_of_ble_eq_true rfl, Nat.le_of_ble_eq_true rfl⟩

/-- Margins are read as 32-bit words, and the cropping rectangle has room in 64 bits. -/
theorem croppedSize_eq {columns rows : Nat} (hColumns : columns ≤ 1024) (hRows : rows ≤ 1024)
    (arrayType : Nat) (frameMbsOnly : Bool) {cropping : Cropping} (h : cropping.Fits) :
    build.croppedSize columns rows arrayType frameMbsOnly cropping =
      let unit := Sps.croppingUnit arrayType frameMbsOnly
      let codedWidth := columns * 16
      let codedHeight := rows * if frameMbsOnly then 16 else 32
      let cropX := (cropping.left + cropping.right) * unit.1
      let cropY := (cropping.top + cropping.bottom) * unit.2
      if cropX ≥ codedWidth ∨ cropY ≥ codedHeight then
        ofExcept (.error (.cropping codedWidth codedHeight cropX cropY))
      else .ok (codedWidth - cropX, codedHeight - cropY) := by
  obtain ⟨hLeft, hRight, hTop, hBottom⟩ := h
  obtain ⟨hAcross, hDown⟩ := croppingUnit_le arrayType frameMbsOnly
  have hScale : (if frameMbsOnly then 16 else 32) ≤ 32 := by cases frameMbsOnly <;> decide
  rw [croppedSize, croppingUnit_eq, ok_bind]
  generalize (if frameMbsOnly then 16 else 32) = scale at *
  have hHeight : rows * scale ≤ 1024 * 32 := Nat.mul_le_mul hRows hScale
  have hX : (cropping.left + cropping.right) * (Sps.croppingUnit arrayType frameMbsOnly).1 ≤ 2 ^ 33 * 2 :=
    Nat.mul_le_mul (by omega) hAcross
  have hY : (cropping.top + cropping.bottom) * (Sps.croppingUnit arrayType frameMbsOnly).2 ≤ 2 ^ 33 * 4 :=
    Nat.mul_le_mul (by omega) hDown
  rw [build.mul_of_lt (by omega), ok_bind, build.mul_of_lt (by omega), ok_bind,
    build.add_of_lt (by omega), ok_bind, build.add_of_lt (by omega), ok_bind,
    build.mul_of_lt (by omega), ok_bind, build.mul_of_lt (by omega), ok_bind]
  dsimp only
  split
  case isTrue => rfl
  case isFalse hShown =>
    rw [Nat.mod_eq_of_lt (by omega), Nat.mod_eq_of_lt (by omega), build.sub_of_le (by omega) (by omega),
      ok_bind, build.sub_of_le (by omega) (by omega)]
    rfl

/-- Only a bit depth can leave its word. -/
theorem agrees_readSps : AgreesUnless build DepthLeavesWord build.readSps Sps.read := by
  have hRead : AgreesUnless build (fun word => ∃ profile back, word = Bits.ofByte profile ++ back ∧
      ∃ constraints back', back = Bits.ofByte constraints ++ back' ∧
      ∃ level back, back' = Bits.ofByte level ++ back ∧
      ∃ (id : Code) (back' : List Bool), back = Bits.ue id.val ++ back' ∧ ¬ id.val > 31 ∧
      hasChromaFields profile.toNat ∧
        ∃ (format : ChromaFormat) (back : List Bool), back' = format.bits ++ back ∧ LargeDepths back)
      build.readSps Sps.read := by
    unfold readSps Sps.read
    refine .behind (.readBits 8) .byte fun profile => ?_
    refine .behind ((Agrees.readBits 8).skipMany 1) Decodes.byte.skipOne fun constraints => ?_
    refine .behind (.readBits 8) .byte fun level => ?_
    refine .behind .readUe .code fun id => .guard rfl fun _ => ?_
    refine (build.agrees_readChroma profile.toNat).bind fun chroma => ?_
    refine Agrees.readUe.bind fun frameNumBits _ _ _ => .guard rfl fun hFrameNum => ?_
    refine build.agrees_readPocType.bind fun pocType _ _ _ => ?_
    refine Agrees.readUe.bind fun maxRefFrames _ _ _ => .guard rfl fun _ => ?_
    refine Agrees.readBit.bind fun gaps _ _ _ => ?_
    refine build.agrees_oneMore (by decide) fun columns _ => ?_
    refine build.agrees_oneMore (by decide) fun rows _ => ?_
    refine .guard rfl fun hSize => Agrees.readBit.bind fun frameMbsOnly _ _ _ => ?_
    refine .onlyIf (build.agrees_skipBits 1) ((build.agrees_skipBits 1).bind fun _ _ _ _ => ?_)
    refine agrees_readCropping.bind fun cropping _ _ hCropping => ?_
    rw [build.croppedSize_eq (by omega) (by omega) _ _ (fits_of_readCropping hCropping)]
    dsimp only
    generalize (if frameMbsOnly then 16 else 32) = scale
    split
    case isTrue => exact .refused rfl _ _
    case isFalse =>
      rw [lift_ok_bind, build.add_of_lt (by omega)]
      exact .pure _
  refine hRead.congr fun word => ?_
  constructor
  · rintro ⟨profile, _, rfl, constraints, _, rfl, level, _, rfl, id, _, rfl, hId, hProfile, format,
      back, rfl, hOver⟩
    exact ⟨profile, constraints, level, ⟨id.val, by omega⟩, format, back, hProfile,
      by simp only [List.append_assoc], hOver⟩
  · rintro ⟨profile, constraints, level, id, format, back, hProfile, rfl, hOver⟩
    exact ⟨profile, _, by simp only [List.append_assoc], constraints, _, rfl, level, _, rfl,
      ⟨id, by omega⟩, _, rfl, Nat.not_lt.mpr (Nat.le_of_lt_succ id.isLt), hProfile, format, back,
      rfl, hOver⟩

/-- The builds part on a sequence parameter set exactly if a bit depth leaves the word. -/
theorem sequenceSet_divergesIf {rbsp : Bytes} (hSize : rbsp.length < 2 ^ 60) :
    DivergesIf (DepthLeavesWord (Bits.ofBytes rbsp)) (fun build => build.sequenceSet rbsp)
      (Sps.ofRbsp rbsp) := by
  unfold sequenceSet Sps.ofRbsp
  by_cases hShort : rbsp.length < 4
  · simp only [if_pos hShort]
    refine .refused ?_ rfl
    rintro ⟨profile, constraints, level, id, format, back, -, hWord, luma, rest, rfl, -⟩
    have hLength := congrArg List.length hWord
    simp only [List.length_append, Bits.length_ofBytes, Bits.length_ofByte, Bits.length_ue] at hLength
    omega
  · simp only [if_neg hShort]
    exact .value? agrees_readSps hSize

end Sequences

section Builds

/-- The two builds return the same for every parameter set, except where a bit depth or a quantiser leaves its
word. There the build with checks stops, like the reading of the set as bits, and the other one goes on. -/
theorem parameterSets_divergesIf {rbsp : Bytes} (hSize : rbsp.length < 2 ^ 60) :
    DivergesIf (Sps.DepthLeavesWord (Bits.ofBytes rbsp)) (fun build => build.sequenceSet rbsp)
        (Sps.ofRbsp rbsp) ∧
      DivergesIf (Pps.QpLeavesWord (Bits.ofBytes rbsp)) (fun build => build.pictureSet rbsp)
        (Pps.ofRbsp rbsp) :=
  ⟨sequenceSet_divergesIf hSize, pictureSet_divergesIf hSize⟩

/-- A sequence parameter set of 32 times 32 pixels whose luma depth has the code `2 ^ 32 - 2`. -/
def sampleDeep : Bytes :=
  [0x64, 0x00, 0x1E, 0xA0, 0x00, 0x00, 0x00, 0x1F, 0xFF, 0xFF, 0xFF, 0xF2, 0xD1, 0x2D]

/-- A picture parameter set whose quantiser is `2 ^ 31 - 1` away from 26. -/
def sampleCoarse : Bytes :=
  [0xCE, 0x00, 0x00, 0x00, 0x00, 0x7F, 0xFF, 0xFF, 0xFF, 0x62]

/-- On both samples the checked build stops where the other one goes on. -/
theorem parameterSets_divergesIf_samples :
    sampleDeep.length < 2 ^ 60 ∧ sampleCoarse.length < 2 ^ 60 ∧
      (checked.sequenceSet sampleDeep = stop .overflow ∧ Sps.ofRbsp sampleDeep = .error .overflow ∧
        checked.sequenceSet sampleDeep ≠ wrapping.sequenceSet sampleDeep) ∧
      checked.pictureSet sampleCoarse = stop .overflow ∧ Pps.ofRbsp sampleCoarse = .error .overflow ∧
        checked.pictureSet sampleCoarse ≠ wrapping.pictureSet sampleCoarse := by
  have hDeep : Sps.DepthLeavesWord (Bits.ofBytes sampleDeep) :=
    ⟨100, 0, 30, 0, .yuv420, (Bits.ofBytes sampleDeep).drop 28, by decide, rfl, ⟨2 ^ 32 - 2, by decide⟩,
      (Bits.ofBytes sampleDeep).drop 91, rfl, .inl (by decide)⟩
  have hCoarse : Pps.QpLeavesWord (Bits.ofBytes sampleCoarse) :=
    ⟨⟨0, 0, false, false, .single, 0, 0, false, 0⟩, ⟨Int32.maxValue, by decide⟩,
      (Bits.ofBytes sampleCoarse).drop 73, by decide, by decide⟩
  have hSps := (@parameterSets_divergesIf sampleDeep (by decide)).1
  have hPps := (@parameterSets_divergesIf sampleCoarse (by decide)).2
  exact ⟨by decide, by decide,
    ⟨hSps.stops_iff.mpr hDeep, hSps.breaksOff_iff.mpr hDeep, fun hSame => hSps.same_iff.mp hSame hDeep⟩,
    hPps.stops_iff.mpr hCoarse, hPps.breaksOff_iff.mpr hCoarse, fun hSame => hPps.same_iff.mp hSame hCoarse⟩

/-- Only one of the two builds accepts the set. The depth that it takes for legal is 6. -/
theorem sequenceSet_sampleDeep :
    checked.sequenceSet sampleDeep = stop .overflow ∧
      wrapping.sequenceSet sampleDeep = .ok {
        profile := 100, level := 30, id := 0, chromaFormat := 1, log2MaxFrameNum := 4, pocType := 2,
        maxRefFrames := 1, frameNumGapsAllowed := false, widthInMbs := 2, heightInMapUnits := 2,
        frameMbsOnly := true, width := 32, height := 32 } := by
  constructor <;> rfl

end Builds

end Machine.Build

end Cadence
