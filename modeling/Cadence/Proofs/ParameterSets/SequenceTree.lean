import Mathlib.Algebra.BigOperators.Group.List.Basic
import Cadence.Proofs.Bits.Steps
import Cadence.Proofs.ParameterSets.ColourPlanes

/-!
Sequence parameter sets as syntax trees. A tree holds the values of all syntax elements up to the cropping
rectangle, those that are not kept included, and `Sps.Tree.bits` is its coded form. Whatever follows the
coded form of a tree, the set that is read is that of the tree (`Sps.ofRbsp_of_tree`).
-/

namespace Cadence

open BitReader

namespace Sps

section ScalingLists

/-- The entry of a scaling list that the first `count` differences lead to from the entry `first`. -/
def entryAfter (first : Int) (deltas : List Int8) (count : Nat) : Int :=
  (first + ((deltas.take count).map Int8.toInt).sum) % 256

/-- The differences of a scaling list of `size` entries behind the entry `first`. They end with the
list, or where they lead to zero: the entries from there on are not coded. -/
structure ScalingDeltas (size : Nat) (first : Int) (deltas : List Int8) : Prop where
  length_le : deltas.length ≤ size
  goesOn : ∀ count < deltas.length, entryAfter first deltas count ≠ 0
  ends : deltas.length = size ∨ entryAfter first deltas deltas.length = 0

def deltaBits (deltas : List Int8) : List Bool :=
  deltas.flatMap fun delta => Bits.se (Int32.ofInt delta.toInt)

/-- The number of entries of a scaling list. -/
def scalingSize (index : Nat) : Nat :=
  if index < 6 then 16 else 64

/-- The flag of a scaling list, and its differences if it is present. -/
def scalingBits : Option (List Int8) → List Bool
  | none => [false]
  | some deltas => true :: deltaBits deltas

def scalingMatrixBits : Option (List (Option (List Int8))) → List Bool
  | none => [false]
  | some lists => true :: lists.flatMap scalingBits

/-- Scaling lists that stand behind `index` others. Those that are present start at the entry 8. -/
def ScalingLists (index : Nat) (lists : List (Option (List Int8))) : Prop :=
  ∀ place (h : place < lists.length), ∀ deltas ∈ lists[place],
    ScalingDeltas (scalingSize (index + place)) 8 deltas

instance (size : Nat) (first : Int) (deltas : List Int8) : Decidable (ScalingDeltas size first deltas) :=
  decidable_of_iff (deltas.length ≤ size ∧ (∀ count < deltas.length, entryAfter first deltas count ≠ 0) ∧
      (deltas.length = size ∨ entryAfter first deltas deltas.length = 0))
    ⟨fun h => ⟨h.1, h.2.1, h.2.2⟩, fun h => ⟨h.length_le, h.goesOn, h.ends⟩⟩

instance (index : Nat) (lists : List (Option (List Int8))) : Decidable (ScalingLists index lists) :=
  inferInstanceAs (Decidable (∀ place (h : place < lists.length), ∀ deltas ∈ lists[place],
    ScalingDeltas (scalingSize (index + place)) 8 deltas))

end ScalingLists

/-- Chroma formats. Only pictures with chroma of full size can have their planes coded separately. -/
inductive ChromaFormat
  | monochrome
  | yuv420
  | yuv422
  | yuv444 (separatePlanes : Bool)
  deriving DecidableEq, Repr

namespace ChromaFormat

def idc : ChromaFormat → Nat
  | monochrome => 0
  | yuv420 => 1
  | yuv422 => 2
  | yuv444 _ => 3

def separatePlanes : ChromaFormat → Bool
  | yuv444 separatePlanes => separatePlanes
  | _ => false

/-- The flag for separate planes, where it stands. -/
def planeBits : ChromaFormat → List Bool
  | yuv444 separatePlanes => [separatePlanes]
  | _ => []

def bits (format : ChromaFormat) : List Bool :=
  Bits.ue format.idc ++ format.planeBits

/-- The number of scaling lists in a scaling matrix. -/
def scalingLists : ChromaFormat → Nat
  | yuv444 _ => 12
  | _ => 8

/-- Luma samples for each chroma sample, across and down. Without chroma, and in planes that are coded
separately, samples count one by one. -/
def subsampling : ChromaFormat → Nat × Nat
  | monochrome => (1, 1)
  | yuv420 => (2, 2)
  | yuv422 => (2, 1)
  | yuv444 _ => (1, 1)

end ChromaFormat

/-- The fields that only some profiles carry. The bit depths are those above 8. -/
structure ChromaTree where
  format : ChromaFormat
  lumaDepth : Fin 7
  chromaDepth : Fin 7
  transformBypass : Bool
  /-- The scaling matrix, if it is present. -/
  scaling : Option (List (Option (List Int8)))
  length_scaling : ∀ lists ∈ scaling, lists.length = format.scalingLists
  scalingLists : ∀ lists ∈ scaling, ScalingLists 0 lists

def ChromaTree.bits (tree : ChromaTree) : List Bool :=
  tree.format.bits ++ Bits.ue tree.lumaDepth ++ Bits.ue tree.chromaDepth ++ [tree.transformBypass]
    ++ scalingMatrixBits tree.scaling

/-- The picture order count, by its type. -/
inductive PocTree
  /-- The lower bits are sent, 4 more than this. -/
  | lowBits (log2MaxLsb : Fin 13)
  /-- What is expected follows a cycle of offsets. -/
  | cycle (alwaysZero : Bool) (nonRef topToBottom : SignedCode) (offsets : List SignedCode)
      (length_le : offsets.length ≤ 255)
  | outputOrder

namespace PocTree

def type : PocTree → Nat
  | lowBits _ => 0
  | cycle .. => 1
  | outputOrder => 2

def bits : PocTree → List Bool
  | lowBits log2MaxLsb => Bits.ue 0 ++ Bits.ue log2MaxLsb
  | cycle alwaysZero nonRef topToBottom offsets _ =>
    Bits.ue 1 ++ [alwaysZero] ++ Bits.se nonRef.val ++ Bits.se topToBottom.val ++ Bits.ue offsets.length
      ++ offsets.flatMap fun offset => Bits.se offset.val
  | outputOrder => Bits.ue 2

end PocTree

/-- How pictures are coded: as frames only, or also as fields, and then perhaps macroblock by macroblock. -/
inductive Pictures
  | frames
  | fields (adaptive : Bool)
  deriving DecidableEq, Repr

namespace Pictures

def frameMbsOnly : Pictures → Bool
  | frames => true
  | fields _ => false

/-- The macroblock rows of a map unit. -/
def rows : Pictures → Nat
  | frames => 1
  | fields _ => 2

/-- The flag for adaptive coding, where it stands. -/
def adaptiveBits : Pictures → List Bool
  | frames => []
  | fields adaptive => [adaptive]

def bits (pictures : Pictures) : List Bool :=
  [pictures.frameMbsOnly] ++ pictures.adaptiveBits

end Pictures

def croppingBits : Option Cropping → List Bool
  | none => [false]
  | some cropping => [true] ++ Bits.ue cropping.left ++ Bits.ue cropping.right ++ Bits.ue cropping.top
      ++ Bits.ue cropping.bottom

/-- The profiles that carry a chroma format. -/
def chromaProfiles : List Nat :=
  [44, 83, 86, 100, 110, 118, 122, 128, 134, 135, 138, 139, 244]

/-- The syntax tree of a sequence parameter set, up to the cropping rectangle. -/
structure Tree where
  profile : UInt8
  constraints : UInt8
  level : UInt8
  id : Fin 32
  chroma : Option ChromaTree
  chroma_iff : chroma.isSome ↔ profile.toNat ∈ chromaProfiles
  /-- The width of the frame number beyond 4. -/
  frameNumBits : Fin 13
  poc : PocTree
  maxRefFrames : Fin 17
  frameNumGapsAllowed : Bool
  /-- The macroblocks of a row, after the first. -/
  moreColumns : Fin 1024
  /-- The map units of a column, after the first. -/
  moreRows : Fin 1024
  pictures : Pictures
  direct8x8 : Bool
  cropping : Option Cropping

namespace Tree

def bits (tree : Tree) : List Bool :=
  Bits.ofByte tree.profile ++ Bits.ofByte tree.constraints ++ Bits.ofByte tree.level ++ Bits.ue tree.id
    ++ (match tree.chroma with | none => [] | some chroma => chroma.bits)
    ++ Bits.ue tree.frameNumBits ++ tree.poc.bits ++ Bits.ue tree.maxRefFrames
    ++ [tree.frameNumGapsAllowed] ++ Bits.ue tree.moreColumns ++ Bits.ue tree.moreRows
    ++ tree.pictures.bits ++ [tree.direct8x8] ++ croppingBits tree.cropping

/-- Without a chroma format, chroma has half the width and half the height of luma. -/
def format (tree : Tree) : ChromaFormat :=
  match tree.chroma with
  | none => .yuv420
  | some chroma => chroma.format

/-- The samples that one step of cropping removes, across and down. -/
def cropUnit (tree : Tree) : Nat × Nat :=
  (tree.format.subsampling.1, tree.format.subsampling.2 * tree.pictures.rows)

def margins (tree : Tree) : Cropping :=
  tree.cropping.getD ⟨0, 0, 0, 0⟩

/-- The samples that are cropped, across and down. -/
def cropped (tree : Tree) : Nat × Nat :=
  (tree.cropUnit.1 * (tree.margins.left + tree.margins.right),
    tree.cropUnit.2 * (tree.margins.top + tree.margins.bottom))

/-- What is kept of the set. -/
def sps (tree : Tree) : Sps where
  profile := tree.profile.toNat
  level := tree.level.toNat
  id := tree.id
  chromaFormat := tree.format.idc
  log2MaxFrameNum := tree.frameNumBits + 4
  pocType := tree.poc.type
  maxRefFrames := tree.maxRefFrames
  frameNumGapsAllowed := tree.frameNumGapsAllowed
  widthInMbs := tree.moreColumns + 1
  heightInMapUnits := tree.moreRows + 1
  frameMbsOnly := tree.pictures.frameMbsOnly
  width := 16 * (tree.moreColumns + 1) - tree.cropped.1
  height := 16 * ((tree.moreRows + 1) * tree.pictures.rows) - tree.cropped.2

/-- Something is left of the picture. -/
structure Cropped (tree : Tree) : Prop where
  width : tree.cropped.1 < 16 * (tree.moreColumns + 1)
  height : tree.cropped.2 < 16 * ((tree.moreRows + 1) * tree.pictures.rows)

end Tree

section Reading

theorem entryAfter_cons (first : Int) (delta : Int8) (deltas : List Int8) (count : Nat) :
    entryAfter first (delta :: deltas) (count + 1)
      = entryAfter ((first + delta.toInt + 256) % 256) deltas count := by
  rw [entryAfter, entryAfter, List.take_succ_cons, List.map_cons, List.sum_cons]
  omega

theorem ScalingDeltas.tail {size : Nat} {first : Int} {delta : Int8} {deltas : List Int8}
    (h : ScalingDeltas (size + 1) first (delta :: deltas)) :
    ScalingDeltas size ((first + delta.toInt + 256) % 256) deltas where
  length_le := Nat.le_of_succ_le_succ h.length_le
  goesOn := by
    intro count hCount
    rw [← entryAfter_cons]
    exact h.goesOn (count + 1) (Nat.succ_lt_succ hCount)
  ends := by
    rw [← entryAfter_cons]
    exact h.ends.imp_left Nat.succ.inj

/-- The induction is on the differences. Only a zero entry is not the last one before the next. -/
theorem reads_scalingDeltas {size : Nat} {first last : Int} {deltas : List Int8}
    (hRange : 0 ≤ first ∧ first < 256) (hLast : first ≠ 0 → last = first)
    (h : ScalingDeltas size first deltas) :
    Reads (skipScalingList size last first) (deltaBits deltas) () := by
  induction deltas generalizing size first last with
  | nil =>
      cases size with
      | zero => exact .pure ()
      | succ size =>
          have hZero : first = 0 := by
            have hEnd := h.ends.resolve_left (Nat.succ_ne_zero size).symm
            rw [entryAfter, List.take_nil, List.map_nil, List.sum_nil] at hEnd
            omega
          rw [skipScalingList, if_pos hZero]
          exact .pure ()
  | cons delta deltas ih =>
      obtain ⟨size, rfl⟩ := Nat.exists_eq_add_of_lt (Nat.lt_of_lt_of_le (Nat.succ_pos _) h.length_le)
      have hSome : first ≠ 0 := by
        have := h.goesOn 0 (Nat.succ_pos _)
        rw [entryAfter, List.take_zero, List.map_nil, List.sum_nil] at this
        omega
      have hFrom := delta.le_toInt
      have hTill := delta.toInt_lt
      rw [Nat.zero_add, skipScalingList, if_neg hSome, hLast hSome]
      refine (Reads.readInt (by omega)).bind (.guard (by omega) (ih (by omega) ?_ ?_))
      · intro hNext
        rw [if_neg hNext]
      · rw [Nat.zero_add] at h
        exact h.tail

theorem ScalingLists.tail {index : Nat} {list : Option (List Int8)} {lists : List (Option (List Int8))}
    (h : ScalingLists index (list :: lists)) : ScalingLists (index + 1) lists := by
  intro place hPlace deltas hDeltas
  rw [Nat.add_assoc, Nat.add_comm 1]
  exact h (place + 1) (Nat.succ_lt_succ hPlace) deltas hDeltas

/-- Scaling lists are skipped as they were written, by induction over them. -/
theorem reads_scalingLists {index : Nat} {lists : List (Option (List Int8))}
    (h : ScalingLists index lists) :
    Reads (skipScalingLists lists.length index) (lists.flatMap scalingBits) () := by
  induction lists generalizing index with
  | nil => exact .pure ()
  | cons list lists ih =>
      cases list with
      | none => exact (Reads.readBit false).bind (ih h.tail)
      | some deltas =>
          have hDeltas : Reads (skipScalingList (scalingSize index) 8 8) (deltaBits deltas) () :=
            reads_scalingDeltas (by decide) (fun _ => rfl) (h 0 (Nat.succ_pos _) deltas rfl)
          show Reads _ ([true] ++ (deltaBits deltas ++ lists.flatMap scalingBits)) ()
          refine (Reads.readBit true).bind ?_
          exact hDeltas.bind (ih h.tail)

theorem hasChromaFields_iff (profile : Nat) :
    hasChromaFields profile ↔ profile ∈ chromaProfiles := by
  rw [hasChromaFields, List.contains_iff_mem]
  exact List.Perm.mem_iff (by decide)

/-- The bit depths and the scaling matrix are read back. -/
theorem reads_depths (tree : ChromaTree) :
    Reads (readDepths tree.format.idc tree.format.separatePlanes)
      (Bits.ue tree.lumaDepth ++ Bits.ue tree.chromaDepth ++ [tree.transformBypass]
        ++ scalingMatrixBits tree.scaling) ⟨tree.format.idc, tree.format.separatePlanes⟩ := by
  have hCount : (if tree.format.idc = 3 then 12 else 8) = tree.format.scalingLists := by
    cases tree.format <;> rfl
  simp only [List.append_assoc]
  refine (Reads.readUe (by omega)).bind (.fit (by omega) ?_)
  refine (Reads.readUe (by omega)).bind (.fit (by omega) (.guard (by omega) ?_))
  refine (Reads.skipBits [tree.transformBypass]).bind ?_
  rw [hCount]
  cases hScaling : tree.scaling with
  | none => exact (Reads.readBit false).bind (.pure _)
  | some lists =>
      have hLists := reads_scalingLists (tree.scalingLists lists hScaling)
      rw [tree.length_scaling lists hScaling] at hLists
      rw [← List.append_nil (scalingMatrixBits _)]
      show Reads _ ([true] ++ (lists.flatMap scalingBits ++ [])) _
      exact (Reads.readBit true).bind (hLists.bind (.pure _))

/-- The chroma format is read back. -/
theorem reads_format (format : ChromaFormat) :
    Reads readFormat format.bits (format.idc, format.separatePlanes) := by
  have hIdc : format.idc ≤ 3 := by cases format <;> simp [ChromaFormat.idc]
  have hPlanes (hFull : format.idc = 3) : Reads readBit format.planeBits format.separatePlanes := by
    cases format with
    | yuv444 separatePlanes => exact .readBit separatePlanes
    | _ => cases hFull
  have hNoPlanes (hPart : format.idc ≠ 3) :
      Reads (pure false) format.planeBits format.separatePlanes := by
    cases format with
    | yuv444 separatePlanes => exact absurd rfl hPart
    | _ => exact .pure false
  unfold readFormat
  rw [← List.append_nil format.bits, ChromaFormat.bits, List.append_assoc]
  exact (Reads.readUe (by omega)).bind (.guard (by omega) (.either hPlanes hNoPlanes (.pure _)))

/-- A chroma format that is read stands at the cursor. -/
theorem rest_of_format {format : Nat × Bool} {r s : BitReader} (h : readFormat r = .ok format s) :
    ∃ chroma : ChromaFormat, (chroma.idc, chroma.separatePlanes) = format ∧
      r.rest = chroma.bits ++ s.rest := by
  obtain ⟨idc, t, hIdc, h⟩ := bind_eq_ok.mp h
  obtain ⟨hRange, h⟩ := guard_eq_ok.mp h
  obtain ⟨separate, u, hPlanes, h⟩ := either_eq_ok.mp h
  cases h
  have hBits (chroma : ChromaFormat) :
      Bits.ue chroma.idc ++ (chroma.planeBits ++ s.rest) = chroma.bits ++ s.rest :=
    (List.append_assoc ..).symm
  rw [(readUe_eq_ok hIdc).2.1]
  match idc with
  | 0 => cases hPlanes; exact ⟨.monochrome, rfl, hBits .monochrome⟩
  | 1 => cases hPlanes; exact ⟨.yuv420, rfl, hBits .yuv420⟩
  | 2 => cases hPlanes; exact ⟨.yuv422, rfl, hBits .yuv422⟩
  | 3 => exact ⟨.yuv444 separate, rfl, by rw [readBit_eq_ok hPlanes]; exact hBits (.yuv444 separate)⟩
  | n + 4 => omega

theorem decodes_format :
    Decodes readFormat ChromaFormat.bits fun format => (format.idc, format.separatePlanes) where
  reads := reads_format
  exists_item := rest_of_format

/-- The chroma fields of a profile that has them are read back. -/
theorem reads_chroma {profile : Nat} (h : hasChromaFields profile) (tree : ChromaTree) :
    Reads (readChroma profile) tree.bits ⟨tree.format.idc, tree.format.separatePlanes⟩ := by
  have hDepths := reads_depths tree
  rw [readChroma_eq h, ChromaTree.bits]
  simp only [List.append_assoc] at hDepths ⊢
  exact (reads_format tree.format).bind hDepths

/-- The fields of the picture order count are read back as its type. -/
theorem reads_poc (tree : PocTree) : Reads readPocType tree.bits tree.type := by
  unfold readPocType
  cases tree with
  | lowBits log2MaxLsb =>
      refine (Reads.readUe (by decide)).bind ?_
      rw [← List.append_nil (Bits.ue log2MaxLsb)]
      exact (Reads.readUe (by omega)).bind (.guard (by omega) (.pure 0))
  | cycle alwaysZero nonRef topToBottom offsets hLength =>
      have hOffset (offset : SignedCode) : Reads readSe (Bits.se offset.val) offset.val.toInt :=
        Element.reads_se offset.property
      have hPair := Reads.skipEach hOffset [nonRef, topToBottom]
      have hOffsets := Reads.skipEach hOffset offsets
      rw [List.flatMap_cons, List.flatMap_singleton] at hPair
      rw [← List.append_nil (PocTree.bits _), PocTree.bits]
      simp only [List.append_assoc]
      rw [← List.append_assoc (Bits.se nonRef.val)]
      refine (Reads.readUe (by decide)).bind ((Reads.skipBits [alwaysZero]).bind (hPair.bind ?_))
      exact (Reads.readUe (by omega)).bind (.guard (by omega) (hOffsets.bind (.pure 1)))
  | outputOrder =>
      rw [← List.append_nil (PocTree.bits _)]
      exact (Reads.readUe (by decide)).bind (.pure 2)

/-- Each of the margins fits a code word. -/
structure Cropping.Fits (cropping : Cropping) : Prop where
  left : cropping.left + 1 < 2 ^ 32
  right : cropping.right + 1 < 2 ^ 32
  top : cropping.top + 1 < 2 ^ 32
  bottom : cropping.bottom + 1 < 2 ^ 32

theorem reads_cropping {cropping : Option Cropping} (h : (cropping.getD ⟨0, 0, 0, 0⟩).Fits) :
    Reads readCropping (croppingBits cropping) (cropping.getD ⟨0, 0, 0, 0⟩) := by
  cases cropping with
  | none => exact (Reads.readBit false).bind (.pure _)
  | some shown =>
      rw [← List.append_nil (croppingBits _), croppingBits]
      simp only [List.append_assoc]
      refine (Reads.readBit true).bind ((Reads.readUe h.left).bind ((Reads.readUe h.right).bind ?_))
      exact (Reads.readUe h.top).bind ((Reads.readUe h.bottom).bind (.pure _))

theorem reads_chromaFields (tree : Tree) :
    Reads (readChroma tree.profile.toNat)
      (match tree.chroma with | none => [] | some chroma => chroma.bits)
      ⟨tree.format.idc, tree.format.separatePlanes⟩ := by
  have hProfile := (hasChromaFields_iff tree.profile.toNat).trans tree.chroma_iff.symm
  rw [Tree.format]
  cases hChroma : tree.chroma with
  | none =>
      rw [hChroma] at hProfile
      rw [readChroma, if_pos (by simpa using hProfile)]
      exact .pure _
  | some chroma =>
      rw [hChroma] at hProfile
      exact reads_chroma (hProfile.mpr rfl) chroma

theorem croppingUnit_eq (tree : Tree) :
    croppingUnit (Chroma.arrayType ⟨tree.format.idc, tree.format.separatePlanes⟩)
      tree.pictures.frameMbsOnly = tree.cropUnit := by
  rw [Tree.cropUnit]
  cases tree.format with
  | yuv444 separatePlanes => cases separatePlanes <;> cases tree.pictures <;> rfl
  | _ => cases tree.pictures <;> rfl

/-- A border is counted in units that are not empty. -/
theorem cropUnit_pos (tree : Tree) : 0 < tree.cropUnit.1 ∧ 0 < tree.cropUnit.2 := by
  rw [Tree.cropUnit]
  cases tree.format <;> cases tree.pictures <;> simp [ChromaFormat.subsampling, Pictures.rows]

/-- Margins that leave something of the picture are small. -/
theorem Tree.Cropped.fits {tree : Tree} (h : tree.Cropped) : tree.margins.Fits := by
  obtain ⟨hAcross, hDown⟩ := cropUnit_pos tree
  have hRows : tree.pictures.rows ≤ 2 := by cases tree.pictures <;> simp [Pictures.rows]
  have hMax : (tree.moreRows + 1) * tree.pictures.rows ≤ 1024 * 2 := Nat.mul_le_mul (by omega) hRows
  have hWidth : tree.margins.left + tree.margins.right < 16 * (tree.moreColumns + 1) :=
    Nat.lt_of_le_of_lt (Nat.le_mul_of_pos_left _ hAcross) h.width
  have hHeight : tree.margins.top + tree.margins.bottom < 16 * ((tree.moreRows + 1) * tree.pictures.rows) :=
    Nat.lt_of_le_of_lt (Nat.le_mul_of_pos_left _ hDown) h.height
  constructor <;> omega

/-- The coding of a tree whose cropping leaves a picture is read as its parameter set. -/
theorem reads_tree {tree : Tree} (h : tree.Cropped) : Reads read tree.bits tree.sps := by
  have hCropping : Reads readCropping (croppingBits tree.cropping) tree.margins := reads_cropping h.fits
  have hAcross : (tree.margins.left + tree.margins.right) * tree.cropUnit.1 = tree.cropped.1 :=
    Nat.mul_comm ..
  have hDown : (tree.margins.top + tree.margins.bottom) * tree.cropUnit.2 = tree.cropped.2 :=
    Nat.mul_comm ..
  have hWidth : ((tree.moreColumns : Nat) + 1) * 16 = 16 * (tree.moreColumns + 1) := Nat.mul_comm ..
  have hHeight : ((tree.moreRows : Nat) + 1) * (if tree.pictures.frameMbsOnly then 16 else 32)
      = 16 * ((tree.moreRows + 1) * tree.pictures.rows) := by
    rw [Nat.mul_left_comm]
    cases tree.pictures <;> rfl
  have hFields (hOften : (!tree.pictures.frameMbsOnly) = true) :
      Reads (skipBits 1) tree.pictures.adaptiveBits () := by
    cases hPictures : tree.pictures with
    | frames => rw [hPictures] at hOften; cases hOften
    | fields adaptive => exact .skipBits [adaptive]
  have hFrames (hNever : ¬ (!tree.pictures.frameMbsOnly) = true) : tree.pictures.adaptiveBits = [] := by
    cases hPictures : tree.pictures with
    | frames => rfl
    | fields adaptive => rw [hPictures] at hNever; exact absurd rfl hNever
  unfold read
  rw [← List.append_nil (Tree.bits _), Tree.bits, Pictures.bits]
  simp only [List.append_assoc]
  refine (reads_byte tree.profile).bind ((reads_byte tree.constraints).skipOne.bind ?_)
  refine (reads_byte tree.level).bind ?_
  refine (Reads.readUe (by omega)).bind (.guard (by omega) ((reads_chromaFields tree).bind ?_))
  refine (Reads.readUe (by omega)).bind (.guard (by omega) ((reads_poc tree.poc).bind ?_))
  refine (Reads.readUe (by omega)).bind (.guard (by omega) ((Reads.readBit _).bind ?_))
  refine (Reads.readUe (by omega)).bind ((Reads.readUe (by omega)).bind (.guard (by omega) ?_))
  refine (Reads.readBit tree.pictures.frameMbsOnly).bind (.onlyIf hFields hFrames ?_)
  refine (Reads.skipBits [tree.direct8x8]).bind (hCropping.bind ?_)
  rw [croppingUnit_eq, hAcross, hDown, hWidth, hHeight]
  exact .guard (not_or.mpr ⟨Nat.not_le.mpr h.width, Nat.not_le.mpr h.height⟩) (.pure _)

/-- Whatever follows the coded form of a set, the set is read with all its fields. The size of its pictures
is what cropping leaves of the macroblocks, and that is something. -/
theorem ofRbsp_of_tree {tree : Tree} (hCropped : tree.Cropped) {rbsp : Bytes} {trailing : List Bool}
    (hBits : Bits.ofBytes rbsp = tree.bits ++ trailing) :
    ofRbsp rbsp = .ok tree.sps ∧
      tree.sps.width = 16 * tree.sps.widthInMbs - tree.cropped.1 ∧ 0 < tree.sps.width ∧
      tree.sps.height = 16 * tree.sps.mbHeight - tree.cropped.2 ∧ 0 < tree.sps.height := by
  have hLong : ¬ rbsp.length < 4 := by
    have hLength := congrArg List.length hBits
    simp only [Tree.bits, List.length_append, Bits.length_ofBytes, Bits.length_ofByte, Bits.length_ue]
      at hLength
    omega
  have hRead := reads_tree hCropped (BitReader.ofBytes rbsp) trailing ((rest_ofBytes rbsp).trans hBits)
  refine ⟨?_, rfl, Nat.sub_pos_of_lt hCropped.width, ?_, Nat.sub_pos_of_lt hCropped.height⟩
  · rw [ofRbsp, if_neg hLong]
    exact Read.value?_eq_ok.mpr ⟨_, hRead⟩
  · rw [Tree.sps, Sps.mbHeight]
    cases tree.pictures <;> rfl

/-- A set with every part that can be there: planes that are coded separately, scaling lists that go on to
their end and that stop early, a cycle of offsets, fields, and margins. -/
def sampleFull : Tree where
  profile := 244
  constraints := 0
  level := 40
  id := 3
  chroma := some {
    format := .yuv444 true
    lumaDepth := 2
    chromaDepth := 6
    transformBypass := true
    scaling := some ([some (List.replicate 16 0), some [-8], some [100, -108]] ++ List.replicate 8 none
      ++ [some (List.replicate 31 2 ++ List.replicate 33 (-2))])
    length_scaling := by simp [ChromaFormat.scalingLists]
    scalingLists := by simp; decide }
  chroma_iff := by decide
  frameNumBits := 12
  poc := .cycle true ⟨-3, by decide⟩ ⟨Int32.maxValue, by decide⟩ [⟨1, by decide⟩, ⟨-2, by decide⟩]
    (by decide)
  maxRefFrames := 4
  frameNumGapsAllowed := true
  moreColumns := 9
  moreRows := 4
  pictures := .fields true
  direct8x8 := true
  cropping := some ⟨0, 5, 1, 3⟩

theorem ofRbsp_of_tree_sampleFull :
    let rbsp := (BitWriter.empty.writeRun sampleFull.bits).finish
    sampleFull.Cropped ∧ Bits.ofBytes rbsp = sampleFull.bits ++ [false, false] ∧
      ofRbsp rbsp = .ok {
        profile := 244, level := 40, id := 3, chromaFormat := 3, log2MaxFrameNum := 16, pocType := 1,
        maxRefFrames := 4, frameNumGapsAllowed := true, widthInMbs := 10, heightInMapUnits := 5,
        frameMbsOnly := false, width := 155, height := 152 } := by
  have hCropped : sampleFull.Cropped := ⟨by decide, by decide⟩
  have hPadding : (BitWriter.empty.writeRun sampleFull.bits).padding = 2 := by decide +kernel
  have hBits := (BitWriter.empty.writeRun sampleFull.bits).ofBytes_finish
  rw [BitWriter.bits_writeRun, BitWriter.bits_empty, List.nil_append, hPadding] at hBits
  exact ⟨hCropped, hBits, (ofRbsp_of_tree hCropped hBits).1⟩

end Reading

end Sps

end Cadence
