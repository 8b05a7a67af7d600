import Cadence.Proofs.Machine.Units
import Cadence.Proofs.Nal.Selected

/-!
Packets with length fields as a grammar: units behind their lengths, and an end that is no longer than a
length field (`Splits`). A packet is of this form in at most one way. The scan reports the units of just these
packets and finds all others damaged, without a look beyond the data (`scan_blocks`).
-/

namespace Cadence.Nal

/-- A unit that a length field of some size can stand in front of. -/
structure Block (size : LengthSize) where
  unit : Bytes
  unit_ne_nil : unit ≠ [] := by decide
  fits : unit.length < 2 ^ (8 * size.bytes) := by decide

variable {size : LengthSize}

namespace Block

/-- The length of the unit, most significant byte first, and the unit. -/
def bytes (block : Block size) : Bytes :=
  bigEndianBytes size.bytes block.unit.length ++ block.unit

def extentAt (offset : Nat) (block : Block size) : Extent :=
  ⟨block.unit.headD 0, offset + size.bytes, block.unit.length⟩

/-- The units of blocks that stand one behind the other from an offset on. -/
def extents : (offset : Nat) → List (Block size) → List Extent
  | _, [] => []
  | offset, block :: blocks => block.extentAt offset :: extents (offset + block.bytes.length) blocks

end Block

/-- Data is made of blocks and an end that is no longer than a length field. -/
structure Splits (data : Bytes) (blocks : List (Block size)) (tail : Bytes) : Prop where
  data_eq : data = blocks.flatMap Block.bytes ++ tail
  short : tail.length ≤ size.bytes

/-- Behind some blocks the data is longer than a length field and goes on with no block. -/
structure Breaks (data : Bytes) (blocks : List (Block size)) (rest : Bytes) : Prop where
  data_eq : data = blocks.flatMap Block.bytes ++ rest
  long : size.bytes < rest.length
  no_block : ∀ block : Block size, ¬ block.bytes <+: rest

section Grammar

namespace Block

theorem length_bytes (block : Block size) : block.bytes.length = size.bytes + block.unit.length := by
  rw [bytes, List.length_append, length_bigEndianBytes]

theorem take_bytes_append (block : Block size) (rest : Bytes) :
    (block.bytes ++ rest).take size.bytes = bigEndianBytes size.bytes block.unit.length := by
  rw [bytes, List.append_assoc]
  exact List.take_left' (length_bigEndianBytes _ _)

theorem bigEndian_length (block : Block size) :
    bigEndian (bigEndianBytes size.bytes block.unit.length) = block.unit.length := by
  have hFits := block.fits
  rw [Nat.pow_mul] at hFits
  rw [bigEndian_bigEndianBytes, Nat.mod_eq_of_lt hFits]

/-- A block ends where its length field says, whatever follows it. -/
theorem bytes_append_inj {block other : Block size} {back rest : Bytes}
    (h : block.bytes ++ back = other.bytes ++ rest) : block = other ∧ back = rest := by
  have hLength : block.unit.length = other.unit.length := by
    rw [← block.bigEndian_length, ← other.bigEndian_length, ← block.take_bytes_append back, h,
      other.take_bytes_append]
  have hBytes : block.bytes.length = other.bytes.length := by
    rw [length_bytes, length_bytes, hLength]
  obtain ⟨hFront, hBack⟩ := List.append_inj h hBytes
  rw [bytes, bytes, hLength, List.append_cancel_left_eq] at hFront
  cases block
  cases other
  exact ⟨by simpa using hFront, hBack⟩

/-- Data begins with a block exactly if there is a length field and it is in order. -/
theorem exists_prefix_iff (data : Bytes) :
    (∃ block : Block size, block.bytes <+: data) ↔
      size.bytes < data.length ∧ bigEndian (data.take size.bytes) ≠ 0 ∧
        bigEndian (data.take size.bytes) ≤ data.length - size.bytes := by
  constructor
  · rintro ⟨block, rest, rfl⟩
    have hUnit := List.length_pos_iff.mpr block.unit_ne_nil
    rw [take_bytes_append, bigEndian_length, List.length_append, length_bytes]
    omega
  · rintro ⟨hRoom, hSome, hFits⟩
    have hField : (data.take size.bytes).length = size.bytes := by
      rw [List.length_take]
      omega
    have hLess := bigEndian_lt (data.take size.bytes)
    generalize hValue : bigEndian (data.take size.bytes) = length at *
    have hUnit : ((data.drop size.bytes).take length).length = length := by
      rw [List.length_take, List.length_drop]
      omega
    refine ⟨⟨(data.drop size.bytes).take length, ?_, ?_⟩, (data.drop size.bytes).drop length, ?_⟩
    · exact List.ne_nil_of_length_pos (by omega)
    · rwa [hUnit, Nat.pow_mul, ← hField]
    · have hBytes := bigEndianBytes_bigEndian (data.take size.bytes)
      rw [hField, hValue] at hBytes
      show bigEndianBytes size.bytes ((data.drop size.bytes).take length).length
        ++ (data.drop size.bytes).take length ++ (data.drop size.bytes).drop length = data
      rw [hUnit, hBytes, List.append_assoc, List.take_append_drop, List.take_append_drop]

theorem not_prefix_of_le {data : Bytes} (h : data.length ≤ size.bytes) (block : Block size) :
    ¬ block.bytes <+: data := by
  intro hPrefix
  exact Nat.not_lt.mpr h ((exists_prefix_iff data).mp ⟨block, hPrefix⟩).1

/-- Blocks are told apart in one way only, up to where no further one begins. -/
theorem flatMap_append_inj {blocks others : List (Block size)} {tail rest : Bytes}
    (hTail : ∀ block : Block size, ¬ block.bytes <+: tail)
    (hRest : ∀ block : Block size, ¬ block.bytes <+: rest)
    (h : blocks.flatMap bytes ++ tail = others.flatMap bytes ++ rest) :
    blocks = others ∧ tail = rest := by
  induction blocks generalizing others with
  | nil =>
      cases others with
      | nil => exact ⟨rfl, h⟩
      | cons other others =>
          rw [List.flatMap_nil, List.nil_append, List.flatMap_cons, List.append_assoc] at h
          exact absurd (h ▸ List.prefix_append _ _) (hTail other)
  | cons block blocks ih =>
      rw [List.flatMap_cons, List.append_assoc] at h
      cases others with
      | nil =>
          rw [List.flatMap_nil, List.nil_append] at h
          exact absurd (h ▸ List.prefix_append _ _) (hRest block)
      | cons other others =>
          rw [List.flatMap_cons, List.append_assoc] at h
          obtain ⟨rfl, hBehind⟩ := bytes_append_inj h
          obtain ⟨rfl, rfl⟩ := ih hBehind
          exact ⟨rfl, rfl⟩

/-- All data is made of blocks up to where no further one begins. -/
theorem exists_flatMap (size : LengthSize) (data : Bytes) :
    ∃ (blocks : List (Block size)) (rest : Bytes), data = blocks.flatMap bytes ++ rest ∧
      ∀ block : Block size, ¬ block.bytes <+: rest := by
  by_cases h : ∃ block : Block size, block.bytes <+: data
  · obtain ⟨block, rest, rfl⟩ := h
    have hShorter : rest.length < (block.bytes ++ rest).length := by
      have hPos := size.pos
      rw [List.length_append, length_bytes]
      omega
    obtain ⟨blocks, tail, rfl, hTail⟩ := exists_flatMap size rest
    exact ⟨block :: blocks, tail, by rw [List.flatMap_cons, List.append_assoc], hTail⟩
  · exact ⟨[], data, rfl, not_exists.mp h⟩
termination_by data.length

end Block

/-- Data is cut into blocks in one way only, as each length field says where its block ends. -/
theorem Splits.unique {data tail rest : Bytes} {blocks others : List (Block size)}
    (h : Splits data blocks tail) (hOther : Splits data others rest) :
    blocks = others ∧ tail = rest :=
  Block.flatMap_append_inj (Block.not_prefix_of_le h.short) (Block.not_prefix_of_le hOther.short)
    (h.data_eq.symm.trans hOther.data_eq)

/-- Data is of the form, or it goes wrong behind some blocks. -/
theorem not_exists_splits_iff (data : Bytes) :
    (¬ ∃ (blocks : List (Block size)) (tail : Bytes), Splits data blocks tail) ↔
      ∃ (blocks : List (Block size)) (rest : Bytes), Breaks data blocks rest := by
  constructor
  · intro hNone
    obtain ⟨blocks, rest, hData, hRest⟩ := Block.exists_flatMap size data
    have hLong : size.bytes < rest.length := by
      by_contra hShort
      exact hNone ⟨blocks, rest, hData, Nat.not_lt.mp hShort⟩
    exact ⟨blocks, rest, hData, hLong, hRest⟩
  · rintro ⟨blocks, rest, hBreaks⟩ ⟨others, tail, hSplits⟩
    obtain ⟨_, rfl⟩ := Block.flatMap_append_inj hBreaks.no_block
      (Block.not_prefix_of_le hSplits.short) (hBreaks.data_eq.symm.trans hSplits.data_eq)
    exact Nat.not_lt.mpr hSplits.short hBreaks.long

end Grammar

section Scan

/-- A whole block gives one unit, and the units of the rest follow behind it. -/
theorem unitsByLength_block (block : Block size) (offset : Nat) (rest : Bytes) :
    unitsByLength size offset (block.bytes ++ rest)
      = .cons (block.extentAt offset) (unitsByLength size (offset + block.bytes.length) rest) := by
  rw [Block.length_bytes, Block.bytes, List.append_assoc, ← Nat.add_assoc]
  exact unitsByLength_lengthField block.unit_ne_nil block.fits offset rest

/-- The units of blocks are located one after the other, and the search goes on behind them. -/
theorem unitsByLength_blocks (blocks : List (Block size)) (offset : Nat) (rest : Bytes) :
    unitsByLength size offset (blocks.flatMap Block.bytes ++ rest)
      = (unitsByLength size (offset + (blocks.flatMap Block.bytes).length) rest).behind
          (Block.extents offset blocks) := by
  induction blocks generalizing offset with
  | nil => rfl
  | cons block blocks ih =>
      rw [List.flatMap_cons, List.append_assoc, unitsByLength_block, ih, List.length_append,
        ← Nat.add_assoc]
      rfl

theorem length_extents (offset : Nat) (blocks : List (Block size)) :
    (Block.extents offset blocks).length = blocks.length := by
  induction blocks generalizing offset with
  | nil => rfl
  | cons block blocks ih => rw [Block.extents, List.length_cons, List.length_cons, ih]

/-- Data that is cut into blocks has their units and no fault. -/
theorem layout_of_splits {data tail : Bytes} {blocks : List (Block size)}
    (h : Splits data blocks tail) :
    layout (.lengthPrefixed size) data = ⟨Block.extents 0 blocks, none⟩ := by
  rw [layout, h.data_eq, unitsByLength_blocks, unitsByLength_of_le h.short]
  exact congrArg (Layout.mk · none) (List.append_nil _)

/-- Data that breaks off has the units of the blocks in front, and a fault behind them. -/
theorem exists_layout_of_breaks {data rest : Bytes} {blocks : List (Block size)}
    (h : Breaks data blocks rest) :
    ∃ fault, layout (.lengthPrefixed size) data = ⟨Block.extents 0 blocks, some fault⟩ := by
  have hWrong : bigEndian (rest.take size.bytes) = 0 ∨
      rest.length - size.bytes < bigEndian (rest.take size.bytes) := by
    by_contra hNone
    rw [not_or, Nat.not_lt] at hNone
    obtain ⟨block, hBlock⟩ := (Block.exists_prefix_iff rest).mpr ⟨h.long, hNone⟩
    exact h.no_block block hBlock
  refine ⟨.nalLength (bigEndian (rest.take size.bytes)) (rest.length - size.bytes), ?_⟩
  rw [layout, h.data_eq, unitsByLength_blocks, unitsByLength_of_wrong h.long hWrong]
  exact congrArg (Layout.mk · _) (List.append_nil _)

/-- Data is made of blocks and an end no longer than a length field in at most one way. If it is, the units
of the blocks are reported, those with the forbidden bit apart; if it is not, there are blocks up to where it
goes wrong, and it is found to be damaged. As many as 128 blocks are looked at. At every size that a slice in
memory can have, no byte beyond the data is asked for and nothing is taken from less on the way. -/
theorem scan_blocks (size : LengthSize) (data : Bytes) :
    (∀ (blocks others : List (Block size)) (tail rest : Bytes), Splits data blocks tail →
      Splits data others rest → blocks = others ∧ tail = rest) ∧
    (∀ (blocks : List (Block size)) (tail : Bytes), Splits data blocks tail → blocks.length ≤ 128 →
      scan (.lengthPrefixed size) data = .ok ⟨reportable (Block.extents 0 blocks), false⟩) ∧
    ((¬ ∃ (blocks : List (Block size)) (tail : Bytes), Splits data blocks tail) ↔
      ∃ (blocks : List (Block size)) (rest : Bytes), Breaks data blocks rest) ∧
    (∀ (blocks : List (Block size)) (rest : Bytes), Breaks data blocks rest → blocks.length ≤ 128 →
      ∃ fault, scan (.lengthPrefixed size) data = .error fault ∧ fault.category = .invalidData) ∧
    (data.length < 2 ^ 63 → Machine.scanUnits (.lengthPrefixed size) data
      = Machine.ofExcept ((scan (.lengthPrefixed size) data).map Scan.spans)) := by
  refine ⟨fun blocks others tail rest h hOther => h.unique hOther, fun blocks tail h hCount => ?_,
    not_exists_splits_iff data, fun blocks rest h hCount => ?_, Machine.scanUnits_eq _⟩
  · rw [scan, layout_of_splits h]
    exact select_of_length_le (by rwa [length_extents]) none
  · obtain ⟨fault, hLayout⟩ := exists_layout_of_breaks h
    have hScan : scan (.lengthPrefixed size) data = .error fault := by
      rw [scan, hLayout]
      exact select_of_length_le (by rwa [length_extents]) (some fault)
    exact ⟨fault, hScan, category_of_scan hScan⟩

/-- A slice, and a unit with the forbidden bit. -/
def sampleBlocks : List (Block ⟨2, by decide, by decide⟩) :=
  [{ unit := [0x41, 0x9a, 0] }, { unit := [0xc1] }]

/-- An end of two bytes is passed over, although it could be a length field. With a byte behind it, it is
one, and it says too much. -/
theorem scan_blocks_sampleBlocks :
    Splits [0, 3, 0x41, 0x9a, 0, 0, 1, 0xc1, 0, 2] sampleBlocks [0, 2] ∧ sampleBlocks.length ≤ 128 ∧
      scan (.lengthPrefixed ⟨2, by decide, by decide⟩) [0, 3, 0x41, 0x9a, 0, 0, 1, 0xc1, 0, 2]
        = .ok ⟨[⟨.slice, 2, 2, 3⟩], false⟩ ∧
      Breaks [0, 3, 0x41, 0x9a, 0, 0, 1, 0xc1, 0, 2, 0x41] sampleBlocks [0, 2, 0x41] ∧
      ∃ fault, Machine.scanUnits (.lengthPrefixed ⟨2, by decide, by decide⟩)
          [0, 3, 0x41, 0x9a, 0, 0, 1, 0xc1, 0, 2, 0x41] = Machine.ofExcept (.error fault) ∧
        fault.category = .invalidData := by
  have hCount : sampleBlocks.length ≤ 128 := by decide
  have hSplits : Splits [0, 3, 0x41, 0x9a, 0, 0, 1, 0xc1, 0, 2] sampleBlocks [0, 2] :=
    ⟨by decide, by decide⟩
  have hNone (block : Block ⟨2, by decide, by decide⟩) : ¬ block.bytes <+: [0, 2, 0x41] :=
    fun hBlock => absurd ((Block.exists_prefix_iff _).mp ⟨block, hBlock⟩) (by decide)
  have hBreaks : Breaks [0, 3, 0x41, 0x9a, 0, 0, 1, 0xc1, 0, 2, 0x41] sampleBlocks [0, 2, 0x41] :=
    ⟨by decide, by decide, hNone⟩
  obtain ⟨_, hOk, _⟩ := scan_blocks ⟨2, by decide, by decide⟩ [0, 3, 0x41, 0x9a, 0, 0, 1, 0xc1, 0, 2]
  obtain ⟨_, _, _, hFault, hMachine⟩ :=
    scan_blocks ⟨2, by decide, by decide⟩ [0, 3, 0x41, 0x9a, 0, 0, 1, 0xc1, 0, 2, 0x41]
  obtain ⟨fault, hScan, hCategory⟩ := hFault sampleBlocks _ hBreaks hCount
  refine ⟨hSplits, hCount, hOk sampleBlocks _ hSplits hCount, hBreaks, fault, ?_, hCategory⟩
  rw [hMachine (by decide), hScan]
  rfl

end Scan

end Cadence.Nal
