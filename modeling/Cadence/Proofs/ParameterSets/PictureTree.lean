import Mathlib.Data.Nat.Log
import Cadence.Pps
import Cadence.Proofs.Bits.Steps

/-!
Picture parameter sets as syntax trees. A tree holds the values of all syntax elements up to the flag for
redundant pictures, the map of the slice groups included, and `Pps.Tree.bits` is its coded form. The sets
that can be read are those that begin with the coded form of a tree (`Pps.ofRbsp_eq_ok_iff`).
-/

namespace Cadence

open BitReader

namespace Pps

/-- How the macroblocks of a picture are divided among `groups` slice groups. -/
inductive GroupMap (groups : Nat)
  /-- The groups take turns, each with a run of its own length. -/
  | interleaved (runs : List Code) (length_runs : runs.length = groups)
  | dispersed
  /-- Each group but the last is a rectangle, given by two of its corners. -/
  | rectangles (corners : List (Code × Code)) (length_corners : corners.length + 1 = groups)
  /-- Groups that grow from picture to picture, in one of three ways. -/
  | evolving (way : Fin 3) (direction : Bool) (rate : Code)
  /-- The group of each map unit is given. -/
  | explicit (ids : List Nat) (length_pos : 0 < ids.length) (length_lt : ids.length < 2 ^ 32)

namespace GroupMap

variable {groups : Nat}

def type : GroupMap groups → Nat
  | interleaved .. => 0
  | dispersed => 1
  | rectangles .. => 2
  | evolving way .. => 3 + way
  | explicit .. => 6

def bits : GroupMap groups → List Bool
  | interleaved runs _ => Bits.ue 0 ++ runs.flatMap fun run => Bits.ue run.val
  | dispersed => Bits.ue 1
  | rectangles corners _ =>
    Bits.ue 2 ++ corners.flatMap fun corner => Bits.ue corner.1.val ++ Bits.ue corner.2.val
  | evolving way direction rate => Bits.ue (3 + way) ++ [direction] ++ Bits.ue rate.val
  | explicit ids _ _ =>
    Bits.ue 6 ++ Bits.ue (ids.length - 1) ++ ids.flatMap (Bits.ofNat (Nat.clog 2 groups))

end GroupMap

/-- The slice groups of a picture, of which there are at most eight. -/
inductive Groups
  | single
  | several (more : Fin 7) (map : GroupMap (more + 2))

namespace Groups

/-- The groups after the first. -/
def others : Groups → Nat
  | single => 0
  | several more _ => more + 1

def count (groups : Groups) : Nat :=
  groups.others + 1

/-- A single group needs no map. -/
def mapType : Groups → Nat
  | single => 0
  | several _ map => map.type

def mapBits : Groups → List Bool
  | single => []
  | several _ map => map.bits

def bits (groups : Groups) : List Bool :=
  Bits.ue groups.others ++ groups.mapBits

end Groups

/-- The syntax elements in front of the quantiser. -/
structure Front where
  id : Fin 256
  spsId : Fin 32
  cabac : Bool
  picOrderPresent : Bool
  groups : Groups
  /-- The references in either list, after the first. -/
  moreRefs0 : Fin 32
  moreRefs1 : Fin 32
  weightedPred : Bool
  weightedBipred : Fin 3

def Front.bits (front : Front) : List Bool :=
  Bits.ue front.id ++ Bits.ue front.spsId ++ [front.cabac] ++ [front.picOrderPresent] ++ front.groups.bits
    ++ Bits.ue front.moreRefs0 ++ Bits.ue front.moreRefs1 ++ [front.weightedPred]
    ++ Bits.ofNat 2 front.weightedBipred

/-- The syntax tree of a picture parameter set, up to the flag for redundant pictures. -/
structure Tree extends Front where
  initialQp : Fin 52
  /-- The quantiser of switching pictures, which is not kept. -/
  initialQs : SignedCode
  chromaQpOffset : Int
  chromaQpOffset_range : -12 ≤ chromaQpOffset ∧ chromaQpOffset ≤ 12
  deblockingControl : Bool
  constrainedIntraPred : Bool
  redundantPicCount : Bool

namespace Tree

/-- Quantisers are coded by their distance from 26. -/
def bits (tree : Tree) : List Bool :=
  tree.toFront.bits ++ Bits.se (Int32.ofInt (tree.initialQp - 26)) ++ Bits.se tree.initialQs.val
    ++ Bits.se (Int32.ofInt tree.chromaQpOffset) ++ [tree.deblockingControl] ++ [tree.constrainedIntraPred]
    ++ [tree.redundantPicCount]

/-- What is kept of the set. -/
def pps (tree : Tree) : Pps where
  id := tree.id
  spsId := tree.spsId
  cabac := tree.cabac
  picOrderPresent := tree.picOrderPresent
  sliceGroups := tree.groups.count
  sliceGroupMap := tree.groups.mapType
  defaultRefs0 := tree.moreRefs0 + 1
  defaultRefs1 := tree.moreRefs1 + 1
  weightedPred := tree.weightedPred
  weightedBipred := tree.weightedBipred
  initialQp := tree.initialQp
  chromaQpOffset := tree.chromaQpOffset
  deblockingControl := tree.deblockingControl
  constrainedIntraPred := tree.constrainedIntraPred
  redundantPicCount := tree.redundantPicCount

end Tree

section Parts

/-- What is kept of the syntax elements in front of the quantiser. -/
structure Head where
  id : Nat
  spsId : Nat
  cabac : Bool
  picOrderPresent : Bool
  sliceGroups : Nat
  sliceGroupMap : Nat
  defaultRefs0 : Nat
  defaultRefs1 : Nat
  weightedPred : Bool
  weightedBipred : Nat

def readHead : Read Head := do
  let id ← readUe
  if id > 255 then throw (.ppsId id)
  let spsId ← readUe
  if spsId > 31 then throw (.spsId spsId)
  let cabac ← readBit
  let picOrderPresent ← readBit
  let extraGroups ← readUe
  if extraGroups > 7 then throw (.sliceGroups extraGroups)
  let sliceGroupMap ← if extraGroups > 0 then readSliceGroupMap extraGroups else pure 0
  let defaultRefs0 := (← readUe) + 1
  let defaultRefs1 := (← readUe) + 1
  if defaultRefs0 > 32 ∨ defaultRefs1 > 32 then throw (.defaultRefs defaultRefs0 defaultRefs1)
  let weightedPred ← readBit
  let weightedBipred ← readBits 2
  if weightedBipred > 2 then throw (.weightedBipred weightedBipred)
  return {
    id, spsId, cabac, picOrderPresent, sliceGroups := extraGroups + 1, sliceGroupMap, defaultRefs0,
    defaultRefs1, weightedPred, weightedBipred }

/-- Reads what stands behind the quantiser, which is checked first. -/
def readTail (head : Head) (initialQp : Int) : Read Pps := do
  if initialQp < 0 ∨ initialQp > 51 then throw (.initialQp initialQp)
  skipMany readSe 1
  let chromaQpOffset ← readSe
  if chromaQpOffset < -12 ∨ chromaQpOffset > 12 then throw (.chromaQpOffset chromaQpOffset)
  let deblockingControl ← readBit
  let constrainedIntraPred ← readBit
  let redundantPicCount ← readBit
  return { head with
    initialQp, chromaQpOffset, deblockingControl, constrainedIntraPred, redundantPicCount }

def Front.head (front : Front) : Head where
  id := front.id
  spsId := front.spsId
  cabac := front.cabac
  picOrderPresent := front.picOrderPresent
  sliceGroups := front.groups.count
  sliceGroupMap := front.groups.mapType
  defaultRefs0 := front.moreRefs0 + 1
  defaultRefs1 := front.moreRefs1 + 1
  weightedPred := front.weightedPred
  weightedBipred := front.weightedBipred

/-- The reader is cut at the quantiser, which is kept in a word before it is checked. -/
theorem read_eq :
    read = readHead >>= fun head => readSe >>= fun delta => fitSigned (26 + delta) >>= readTail head := by
  unfold read readHead
  refine bind_cut fun id => guard_cut <| bind_cut fun spsId => guard_cut ?_
  refine bind_cut fun cabac => bind_cut fun picOrder => bind_cut fun groups => guard_cut ?_
  refine either_cut fun map => bind_cut fun refs0 => bind_cut fun refs1 => guard_cut ?_
  refine bind_cut fun weighted => bind_cut fun bipred => guard_cut ?_
  rfl

end Parts

section Reading

theorem clog_two (more : Fin 7) : Nat.clog 2 (more + 2) = ((more : Nat) + 1).log2 + 1 := by
  revert more
  decide

theorem length_ids (width : Nat) (ids : List Nat) :
    (ids.flatMap (Bits.ofNat width)).length = ids.length * width := by
  induction ids with
  | nil => simp
  | cons id ids ih => rw [List.flatMap_cons, List.length_append, Bits.length_ofNat, ih, List.length_cons,
      Nat.succ_mul, Nat.add_comm]

theorem reads_corners (corners : List (Code × Code)) :
    Reads (skipMany readUe (2 * corners.length))
      (corners.flatMap fun corner => Bits.ue corner.1.val ++ Bits.ue corner.2.val) () := by
  induction corners with
  | nil => exact .pure ()
  | cons corner corners ih =>
      rw [List.flatMap_cons, List.append_assoc]
      exact (Reads.readUe corner.1.property).bind ((Reads.readUe corner.2.property).bind ih)

/-- A slice group map of any kind is read back as its type. -/
theorem reads_groupMap {more : Fin 7} (map : GroupMap (more + 2)) :
    Reads (readSliceGroupMap (more + 1)) map.bits map.type := by
  have hCode (code : Code) : Reads readUe (Bits.ue code.val) code.val := .readUe code.property
  unfold readSliceGroupMap
  rw [← List.append_nil map.bits]
  cases map with
  | interleaved runs hRuns =>
      have hSkip := Reads.skipEach hCode runs
      rw [hRuns] at hSkip
      rw [GroupMap.bits, List.append_assoc]
      exact (Reads.readUe (by decide)).bind (hSkip.bind (.pure 0))
  | dispersed => exact (Reads.readUe (by decide)).bind (.pure 1)
  | rectangles corners hCorners =>
      have hSkip := reads_corners corners
      rw [Nat.succ.inj hCorners] at hSkip
      rw [GroupMap.bits, List.append_assoc]
      exact (Reads.readUe (by decide)).bind (hSkip.bind (.pure 2))
  | evolving way direction rate =>
      rw [GroupMap.bits, List.append_assoc, List.append_assoc]
      match way with
      | 0 | 1 | 2 =>
        refine (Reads.readUe (by decide)).bind ((Reads.skipBits [direction]).bind ?_)
        exact (hCode rate).skipOne.bind (.pure _)
  | explicit ids hPos hLess =>
      have hSkip := Reads.skipBits (ids.flatMap (Bits.ofNat (Nat.clog 2 (more + 2))))
      have hUnits : ids.length - 1 + 1 = ids.length := by omega
      rw [length_ids, clog_two] at hSkip
      rw [GroupMap.bits, clog_two]
      simp only [List.append_assoc]
      refine (Reads.readUe (by decide)).bind ((Reads.readUe (by omega)).bind ?_)
      rw [hUnits]
      exact hSkip.bind (.pure 6)

theorem others_le (groups : Groups) : groups.others ≤ 7 := by
  cases groups with
  | single => exact Nat.zero_le 7
  | several more map => exact more.isLt

theorem reads_map {groups : Groups} (h : groups.others > 0) :
    Reads (readSliceGroupMap groups.others) groups.mapBits groups.mapType := by
  cases groups with
  | single => cases h
  | several more map => exact reads_groupMap map

theorem reads_noMap {groups : Groups} (h : ¬ groups.others > 0) :
    Reads (pure 0) groups.mapBits groups.mapType := by
  cases groups with
  | single => exact .pure 0
  | several more map => exact absurd (Nat.succ_pos _) h

/-- The fields before the quantiser are read back. -/
theorem reads_head (front : Front) : Reads readHead front.bits front.head := by
  have hOthers := others_le front.groups
  have hBipred : Reads (readBits 2) (Bits.ofNat 2 front.weightedBipred) front.weightedBipred := by
    have hRead := Reads.readNat (show 2 ≤ 32 by decide) front.weightedBipred
    rwa [Nat.mod_eq_of_lt (by omega)] at hRead
  unfold readHead
  rw [← List.append_nil (Front.bits _), Front.bits, Groups.bits]
  simp only [List.append_assoc]
  refine (Reads.readUe (by omega)).bind (.guard (by omega) ?_)
  refine (Reads.readUe (by omega)).bind (.guard (by omega) ?_)
  refine (Reads.readBit _).bind ((Reads.readBit _).bind ((Reads.readUe (by omega)).bind ?_))
  refine .guard (by omega) (.either reads_map reads_noMap ?_)
  refine (Reads.readUe (by omega)).bind ((Reads.readUe (by omega)).bind (.guard (by omega) ?_))
  exact (Reads.readBit _).bind (hBipred.bind (.guard (by omega) (.pure front.head)))

/-- The fields from the quantiser on are read back. -/
theorem reads_tail (tree : Tree) :
    Reads (readTail tree.toFront.head tree.initialQp)
      (Bits.se tree.initialQs.val ++ Bits.se (Int32.ofInt tree.chromaQpOffset)
        ++ [tree.deblockingControl] ++ [tree.constrainedIntraPred] ++ [tree.redundantPicCount])
      tree.pps := by
  have hOffset := tree.chromaQpOffset_range
  have hQs := (Element.reads_se tree.initialQs.property).skipOne
  unfold readTail
  rw [← List.append_nil (_ ++ [tree.redundantPicCount])]
  simp only [List.append_assoc]
  refine .guard (by omega) (hQs.bind ((Reads.readInt (by omega)).bind (.guard (by omega) ?_)))
  exact (Reads.readBit _).bind ((Reads.readBit _).bind ((Reads.readBit _).bind (.pure tree.pps)))

/-- The coding of a tree is read as its parameter set. -/
theorem reads_tree (tree : Tree) : Reads read tree.bits tree.pps := by
  have hTail := reads_tail tree
  have hQp : 26 + ((tree.initialQp : Int) - 26) = tree.initialQp := by omega
  rw [← hQp] at hTail
  rw [read_eq, Tree.bits]
  simp only [List.append_assoc] at hTail ⊢
  refine (reads_head tree.toFront).bind ((Reads.readInt (by omega)).bind ?_)
  exact .fitSigned (by omega) (by omega) hTail

end Reading

section Converse

variable {r s : BitReader}

theorem exists_ids {width count : Nat} {word : List Bool} (h : word.length = count * width) :
    ∃ ids : List Nat, ids.length = count ∧ ids.flatMap (Bits.ofNat width) = word := by
  induction count generalizing word with
  | zero =>
      rw [Nat.zero_mul] at h
      exact ⟨[], rfl, (List.length_eq_zero_iff.mp h).symm⟩
  | succ count ih =>
      rw [Nat.succ_mul] at h
      obtain ⟨ids, rfl, hIds⟩ := @ih (word.drop width) (by rw [List.length_drop]; omega)
      have hFirst := Bits.ofNat_toNat (word.take width)
      rw [List.length_take_of_le (by omega)] at hFirst
      exact ⟨Bits.toNat (word.take width) :: ids, rfl,
        by rw [List.flatMap_cons, hFirst, hIds, List.take_append_drop]⟩

theorem rest_of_corners {count : Nat} (h : skipMany readUe (2 * count) r = .ok () s) :
    ∃ corners : List (Code × Code), corners.length = count ∧
      r.rest = (corners.flatMap fun corner => Bits.ue corner.1.val ++ Bits.ue corner.2.val) ++ s.rest := by
  induction count generalizing r with
  | zero =>
      cases h
      exact ⟨[], rfl, rfl⟩
  | succ count ih =>
      obtain ⟨_, r₁, hLeft, h⟩ := bind_eq_ok.mp h
      obtain ⟨_, r₂, hRight, h⟩ := bind_eq_ok.mp h
      obtain ⟨left, -, hLeft⟩ := rest_of_readCode hLeft
      obtain ⟨right, -, hRight⟩ := rest_of_readCode hRight
      obtain ⟨corners, rfl, hRest⟩ := ih h
      refine ⟨(left, right) :: corners, rfl, ?_⟩
      rw [hLeft, hRight, hRest, List.flatMap_cons]
      simp only [List.append_assoc]

theorem rest_of_evolving {groups mapType : Nat} (way : Fin 3)
    (h : (do skipBits 1; skipMany readUe 1; return 3 + way.val : Read Nat) r = .ok mapType s) :
    ∃ map : GroupMap groups, map.type = mapType ∧ Bits.ue (3 + way) ++ r.rest = map.bits ++ s.rest := by
  obtain ⟨_, r₁, hDirection, h⟩ := bind_eq_ok.mp h
  obtain ⟨_, r₂, hSkip, hPure⟩ := bind_eq_ok.mp h
  obtain ⟨_, r₃, hRate, hEnd⟩ := bind_eq_ok.mp hSkip
  cases hPure
  cases hEnd
  obtain ⟨word, hWord, hFirst⟩ := rest_of_skipBits hDirection
  obtain ⟨direction, rfl⟩ := List.length_eq_one_iff.mp hWord
  obtain ⟨rate, -, hSecond⟩ := rest_of_readCode hRate
  refine ⟨.evolving way direction rate, rfl, ?_⟩
  rw [hFirst, hSecond, GroupMap.bits]
  simp only [List.append_assoc]

/-- A slice group map that is read was coded as one of its kinds. -/
theorem rest_of_groupMap {more : Fin 7} {mapType : Nat}
    (h : readSliceGroupMap (more + 1) r = .ok mapType s) :
    ∃ map : GroupMap (more + 2), map.type = mapType ∧ r.rest = map.bits ++ s.rest := by
  unfold readSliceGroupMap at h
  obtain ⟨type, r₁, hType, h⟩ := bind_eq_ok.mp h
  obtain ⟨-, hWord, -⟩ := readUe_eq_ok hType
  rw [hWord]
  match type with
  | 0 =>
      obtain ⟨_, _, hSkip, hPure⟩ := bind_eq_ok.mp h
      cases hPure
      obtain ⟨runs, hRuns, hRest⟩ := Decodes.code.exists_items hSkip
      exact ⟨.interleaved runs hRuns, rfl, by rw [hRest, GroupMap.bits, List.append_assoc]⟩
  | 1 =>
      cases h
      exact ⟨.dispersed, rfl, rfl⟩
  | 2 =>
      obtain ⟨_, _, hSkip, hPure⟩ := bind_eq_ok.mp h
      cases hPure
      obtain ⟨corners, hCorners, hRest⟩ := rest_of_corners hSkip
      exact ⟨.rectangles corners (by rw [hCorners]), rfl, by rw [hRest, GroupMap.bits, List.append_assoc]⟩
  | 3 => exact rest_of_evolving 0 h
  | 4 => exact rest_of_evolving 1 h
  | 5 => exact rest_of_evolving 2 h
  | 6 =>
      obtain ⟨units, r₂, hUnits, h⟩ := bind_eq_ok.mp h
      obtain ⟨_, _, hSkip, hPure⟩ := bind_eq_ok.mp h
      cases hPure
      obtain ⟨hLess, hCount, -⟩ := readUe_eq_ok hUnits
      obtain ⟨word, hLength, hRest⟩ := rest_of_skipBits hSkip
      obtain ⟨ids, hIds, rfl⟩ := exists_ids hLength
      have hSome : ids.length - 1 = units := by omega
      refine ⟨.explicit ids (by omega) (by omega), rfl, ?_⟩
      rw [hCount, hRest, GroupMap.bits, hSome, clog_two]
      simp only [List.append_assoc]
  | n + 7 =>
      obtain ⟨_, _, hThrow, -⟩ := bind_eq_ok.mp h
      cases hThrow

theorem rest_of_groups {others mapType : Nat} (hRange : others ≤ 7)
    (h : (if others > 0 then readSliceGroupMap others else pure 0) r = .ok mapType s) :
    ∃ groups : Groups, groups.others = others ∧ groups.mapType = mapType ∧
      r.rest = groups.mapBits ++ s.rest := by
  cases others with
  | zero =>
      cases h
      exact ⟨.single, rfl, rfl, rfl⟩
  | succ more =>
      rw [if_pos (Nat.succ_pos more)] at h
      obtain ⟨map, hType, hRest⟩ := @rest_of_groupMap r s ⟨more, hRange⟩ mapType h
      exact ⟨.several ⟨more, hRange⟩ map, rfl, hType, hRest⟩

/-- Fields that are read before the quantiser were coded as such. -/
theorem rest_of_head {head : Head} (h : readHead r = .ok head s) :
    ∃ front : Front, front.head = head ∧ r.rest = front.bits ++ s.rest := by
  unfold readHead at h
  -- Each step is taken apart, and what it says of the bits is kept.
  obtain ⟨id, _, hId, h⟩ := bind_eq_ok.mp h
  obtain ⟨hIdRange, h⟩ := guard_eq_ok.mp h
  obtain ⟨spsId, _, hSpsId, h⟩ := bind_eq_ok.mp h
  obtain ⟨hSpsRange, h⟩ := guard_eq_ok.mp h
  obtain ⟨cabac, _, hCabac, h⟩ := bind_eq_ok.mp h
  obtain ⟨picOrder, _, hPicOrder, h⟩ := bind_eq_ok.mp h
  obtain ⟨others, _, hOthers, h⟩ := bind_eq_ok.mp h
  obtain ⟨hOthersRange, h⟩ := guard_eq_ok.mp h
  obtain ⟨mapType, _, hMap, h⟩ := either_eq_ok.mp h
  obtain ⟨refs0, _, hRefs0, h⟩ := bind_eq_ok.mp h
  obtain ⟨refs1, _, hRefs1, h⟩ := bind_eq_ok.mp h
  obtain ⟨hRefsRange, h⟩ := guard_eq_ok.mp h
  obtain ⟨weighted, _, hWeighted, h⟩ := bind_eq_ok.mp h
  obtain ⟨bipred, _, hBipred, h⟩ := bind_eq_ok.mp h
  obtain ⟨hBipredRange, h⟩ := guard_eq_ok.mp h
  cases h
  obtain ⟨groups, rfl, rfl, hGroups⟩ := rest_of_groups (by omega) hMap
  let front : Front := ⟨⟨id, by omega⟩, ⟨spsId, by omega⟩, cabac, picOrder, groups, ⟨refs0, by omega⟩,
    ⟨refs1, by omega⟩, weighted, ⟨bipred, by omega⟩⟩
  refine ⟨front, rfl, ?_⟩
  rw [(readUe_eq_ok hId).2.1, (readUe_eq_ok hSpsId).2.1, readBit_eq_ok hCabac, readBit_eq_ok hPicOrder,
    (readUe_eq_ok hOthers).2.1, hGroups, (readUe_eq_ok hRefs0).2.1, (readUe_eq_ok hRefs1).2.1,
    readBit_eq_ok hWeighted, (rest_of_readBits hBipred).2, Front.bits, Groups.bits]
  simp only [List.append_assoc, List.cons_append, List.nil_append, front]

/-- A picture parameter set that is read stands at the cursor as the coding of a tree. -/
theorem rest_of_read {pps : Pps} (h : read r = .ok pps s) :
    ∃ tree : Tree, tree.pps = pps ∧ r.rest = tree.bits ++ s.rest := by
  rw [read_eq] at h
  obtain ⟨head, _, hHead, h⟩ := bind_eq_ok.mp h
  obtain ⟨delta, _, hDelta, hQp⟩ := bind_eq_ok.mp h
  obtain ⟨initialQp, _, hKept, hTail⟩ := bind_eq_ok.mp hQp
  obtain ⟨rfl, rfl⟩ := fitSigned_eq_ok hKept
  unfold readTail at hTail
  obtain ⟨hQpRange, h⟩ := guard_eq_ok.mp hTail
  obtain ⟨_, _, hQs, h⟩ := bind_eq_ok.mp h
  obtain ⟨offset, _, hOffset, h⟩ := bind_eq_ok.mp h
  obtain ⟨hOffsetRange, h⟩ := guard_eq_ok.mp h
  obtain ⟨deblocking, _, hDeblocking, h⟩ := bind_eq_ok.mp h
  obtain ⟨intra, _, hIntra, h⟩ := bind_eq_ok.mp h
  obtain ⟨redundant, _, hRedundant, h⟩ := bind_eq_ok.mp h
  cases h
  obtain ⟨front, rfl, hFront⟩ := rest_of_head hHead
  obtain ⟨deltaCode, rfl, hDeltaBits⟩ := rest_of_readSe hDelta
  obtain ⟨_, _, hQs, hEnd⟩ := bind_eq_ok.mp hQs
  cases hEnd
  obtain ⟨initialQs, -, hQsBits⟩ := rest_of_readSe hQs
  obtain ⟨offsetCode, rfl, hOffsetBits⟩ := rest_of_readSe hOffset
  obtain ⟨qp, hDistance⟩ : ∃ qp : Fin 52, (qp : Int) - 26 = deltaCode.val.toInt :=
    ⟨⟨(26 + deltaCode.val.toInt).toNat, by omega⟩, by dsimp only; omega⟩
  have hSame : (qp : Int) = 26 + deltaCode.val.toInt := by omega
  refine ⟨⟨front, qp, initialQs, offsetCode.val.toInt, by omega, deblocking, intra, redundant⟩, ?_, ?_⟩
  · rw [← hSame]
    rfl
  · rw [hFront, hDeltaBits, hQsBits, hOffsetBits, readBit_eq_ok hDeblocking, readBit_eq_ok hIntra,
      readBit_eq_ok hRedundant, Tree.bits]
    simp only [hDistance, Int32.ofInt_toInt, List.append_assoc, List.cons_append, List.nil_append]

/-- The sets that can be read begin with the coded form of a tree, and are what is kept of it, whatever
follows. -/
theorem ofRbsp_eq_ok_iff {rbsp : Bytes} {pps : Pps} :
    ofRbsp rbsp = .ok pps ↔
      ∃ (tree : Tree) (trailing : List Bool), Bits.ofBytes rbsp = tree.bits ++ trailing ∧ tree.pps = pps := by
  have hEmpty (tree : Tree) (trailing : List Bool) (h : Bits.ofBytes rbsp = tree.bits ++ trailing) :
      ¬ rbsp.isEmpty := by
    intro hNone
    obtain rfl := List.isEmpty_iff.mp hNone
    have hLength := congrArg List.length h
    simp only [Tree.bits, Front.bits, List.length_append, Bits.ofBytes_nil, List.length_nil,
      Bits.length_ue] at hLength
    omega
  constructor
  · intro h
    unfold ofRbsp at h
    split at h
    case isTrue => cases h
    case isFalse =>
      obtain ⟨s, hRead⟩ := Read.value?_eq_ok.mp h
      obtain ⟨tree, hTree, hRest⟩ := rest_of_read hRead
      exact ⟨tree, s.rest, (rest_ofBytes rbsp).symm.trans hRest, hTree⟩
  · rintro ⟨tree, trailing, hBits, rfl⟩
    rw [ofRbsp, if_neg (hEmpty tree trailing hBits)]
    exact Read.value?_eq_ok.mpr
      ⟨_, reads_tree tree (BitReader.ofBytes rbsp) trailing ((rest_ofBytes rbsp).trans hBits)⟩

end Converse

end Pps

end Cadence
