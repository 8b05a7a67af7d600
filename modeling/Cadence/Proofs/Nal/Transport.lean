import Mathlib.Data.List.Forall2
import Cadence.Nal.Unit
import Cadence.Proofs.Nal.Escaping
import Cadence.Proofs.Nal.LengthFields
import Cadence.Proofs.Nal.Selected

/-!
Units come out of a packet as they were put in, whichever way they are told apart (`split_framed`). A
unit is made from a header byte and a payload; what its framing needs of them is that the header byte
and the last byte of the payload are not zero, so that zero bytes between two units belong to the start
code.
-/

namespace Cadence

namespace Nal.UnitType

/-- A type keeps its number only where the number has no name. So no two such types have one number. -/
def Proper : UnitType → Prop
  | .partition id => 2 ≤ id ∧ id ≤ 4
  | .unknown id => id = 0 ∨ 12 < id
  | _ => True

/-- The number of the type is that in the low five bits. -/
theorem code_ofHeader (header : UInt8) : (ofHeader header).code = header.toNat % 32 := by
  unfold ofHeader
  split <;> simp [code, *]

theorem proper_ofHeader (header : UInt8) : (ofHeader header).Proper := by
  unfold ofHeader
  split
  case h_13 =>
    simp only [Proper]
    grind
  all_goals simp [Proper]

end Nal.UnitType

/-- What a unit is made from: its header byte, and what it carries. -/
structure NalUnit.Parts where
  header : UInt8
  rbsp : Bytes
  header_ne_zero : header ≠ 0 := by decide
  header_valid : ¬ Nal.isForbidden header := by decide
  rbsp_ne_nil : rbsp ≠ [] := by decide
  rbsp_end : rbsp.getLast? ≠ some 0 := by decide

namespace NalUnit.Parts

/-- The header byte and the payload with its escape bytes. -/
def bytes (parts : Parts) : Bytes :=
  parts.header :: Nal.escape parts.rbsp

def unit (parts : Parts) : NalUnit :=
  ⟨.ofHeader parts.header, Nal.refIdc parts.header, parts.bytes⟩

theorem bytes_ne_nil (parts : Parts) : parts.bytes ≠ [] :=
  List.cons_ne_nil _ _

theorem rbsp_unit (parts : Parts) : parts.unit.rbsp = parts.rbsp :=
  Nal.unescape_escape parts.rbsp

/-- The bytes of a unit are read back as this unit. -/
theorem ofBytes_bytes (parts : Parts) : ofBytes parts.bytes = .ok parts.unit := by
  rw [bytes, ofBytes, if_neg parts.header_valid]
  rfl

/-- A header byte without its first bit is cut into two bits and five. -/
theorem toNat_header (parts : Parts) :
    parts.header.toNat = 32 * parts.unit.refIdc + parts.unit.type.code ∧ parts.unit.refIdc < 4 ∧
      parts.unit.type.code < 32 := by
  have hValid : ¬ parts.header.toNat ≥ 128 := by simpa [Nal.isForbidden] using parts.header_valid
  have hCode : parts.unit.type.code = parts.header.toNat % 32 := Nal.UnitType.code_ofHeader _
  have hIdc : parts.unit.refIdc = parts.header.toNat / 32 % 4 := rfl
  omega

/-- No start code occurs within a unit. -/
theorem occurs_bytes (parts : Parts) : Nal.StartCode.occurs parts.bytes = false :=
  Nal.StartCode.occurs_escape parts.header_ne_zero parts.rbsp

/-- A unit does not end in a zero byte. -/
theorem getLast?_bytes (parts : Parts) : parts.bytes.getLast? ≠ some 0 := by
  have hEnd := parts.rbsp_end
  rw [bytes, List.getLast?_cons, Nal.getLast?_escape]
  cases hLast : parts.rbsp.getLast? with
  | none => exact absurd (List.getLast?_eq_none_iff.mp hLast) parts.rbsp_ne_nil
  | some byte =>
      rw [hLast] at hEnd
      exact hEnd

end NalUnit.Parts

namespace Nal

open NalUnit (Parts)

namespace StartCode

theorem bytewise_zeros (zeros : Nat) (rest : Bytes) (index : Nat) :
    bytewise (List.replicate (zeros + 2) 0 ++ 1 :: rest) index = some (index + zeros) := by
  induction zeros generalizing index with
  | zero => simp [bytewise, List.replicate_succ, startsHere]
  | succ zeros ih =>
      have hHere : startsHere (0 :: (List.replicate (zeros + 2) 0 ++ 1 :: rest)) = false :=
        startsHere_zeros 0 _
      rw [List.replicate_succ, List.cons_append, bytewise, hHere, if_neg (by decide), ih]
      congr 1
      omega

/-- The first start code behind data that holds none and does not end with a zero byte is the one that
was written there. -/
theorem bytewise_append {front : Bytes} (hFront : occurs front = false)
    (hLast : front.getLast? ≠ some 0) (zeros : Nat) (rest : Bytes) (index : Nat) :
    bytewise (front ++ (List.replicate (zeros + 2) 0 ++ 1 :: rest)) index
      = some (index + front.length + zeros) := by
  induction front generalizing index with
  | nil => exact bytewise_zeros zeros rest index
  | cons byte front ih =>
      rw [occurs, Bool.or_eq_false_iff] at hFront
      have hHere : startsHere
          (byte :: (front ++ (List.replicate (zeros + 2) 0 ++ 1 :: rest))) = false := by
        by_cases hByte : byte = 0
        · subst hByte
          -- The zero byte is not the last one, and the byte 1 of a start code would be.
          rcases front with _ | ⟨second, front⟩
          · exact absurd rfl hLast
          · by_cases hSecond : second = 0
            · subst hSecond
              rcases front with _ | ⟨third, front⟩
              · exact absurd rfl hLast
              · rw [startsHere_zeros] at hFront
                exact (startsHere_zeros third _).trans hFront.1
            · exact startsHere_zero_of_ne_zero hSecond _
        · exact startsHere_of_ne_zero hByte _
      have hRest : front.getLast? ≠ some 0 := by
        rintro hZero
        rw [List.getLast?_cons, hZero] at hLast
        exact hLast rfl
      rw [List.cons_append, bytewise, hHere, if_neg (by decide), ih hFront.2 hRest,
        List.length_cons]
      congr 1
      omega

/-- A start code is written with a zero byte in front or without. -/
inductive Form
  | short
  | long
  deriving DecidableEq, Repr

def Form.zeros : Form → Nat
  | short => 2
  | long => 3

def Form.bytes (form : Form) : Bytes :=
  List.replicate form.zeros 0 ++ [1]

theorem startsHere_iff_short (data : Bytes) : startsHere data = true ↔ Form.short.bytes <+: data := by
  constructor
  · intro h
    unfold startsHere at h
    split at h
    case h_1 rest => exact ⟨rest, rfl⟩
    case h_2 => cases h
  · rintro ⟨rest, rfl⟩
    rfl

/-- Units behind start codes. -/
def stream : List (Form × Parts) → Bytes
  | [] => []
  | (form, parts) :: coded => form.bytes ++ (parts.bytes ++ stream coded)

end StartCode

/-- Units behind what their framing writes in front of them. -/
def Framing.join (framing : Framing) : List Bytes → Except Fault Bytes
  | [] => .ok []
  | unit :: units => do
    let header ← framing.fill framing.headerSize unit.length
    return header ++ (unit ++ (← framing.join units))

/-- An extent is that of the unit which was made from some parts. -/
def Extent.Holds (data : Bytes) (extent : Extent) (parts : Parts) : Prop :=
  extent.header = parts.header ∧ (Span.ofExtent extent).bytes data = parts.bytes

/-- The units that are located are those that were made from some parts. -/
structure Layout.Finds (layout : Layout) (data : Bytes) (units : List Parts) : Prop where
  fault : layout.fault = none
  extents : List.Forall₂ (Extent.Holds data) layout.extents units

section Found

variable {data : Bytes} {extents : List Extent} {units : List Parts}

theorem Layout.Finds.done (data : Bytes) : Layout.done.Finds data [] :=
  ⟨rfl, .nil⟩

theorem Layout.Finds.cons {layout : Layout} (h : layout.Finds data units) {parts : Parts}
    {offset : Nat} {rest : Bytes} (hDrop : data.drop offset = parts.bytes ++ rest) :
    (layout.cons ⟨parts.header, offset, parts.bytes.length⟩).Finds data (parts :: units) := by
  refine ⟨h.fault, .cons ⟨rfl, ?_⟩ h.extents⟩
  show (data.drop offset).take parts.bytes.length = parts.bytes
  rw [hDrop, List.take_left]

/-- No unit that was framed has a forbidden header. -/
theorem valid_of_holds (h : List.Forall₂ (Extent.Holds data) extents units) :
    ∀ extent ∈ extents, ¬ isForbidden extent.header := by
  induction h with
  | nil => simp
  | @cons extent parts extents units hHolds _ ih =>
      exact List.forall_mem_cons.mpr ⟨hHolds.1 ▸ parts.header_valid, ih⟩

/-- Where there is room for all of them, all units are reported. -/
theorem select_of_holds (h : List.Forall₂ (Extent.Holds data) extents units) {room : Nat}
    (hRoom : units.length ≤ room) :
    select room extents none = .ok ⟨extents.map .ofExtent, false⟩ := by
  rw [select_of_length_le (h.length_eq ▸ hRoom), reportable_of_valid (valid_of_holds h)]

/-- Where the extents hold the units, cutting them out and reading them gives the units. -/
theorem mapM_of_holds (h : List.Forall₂ (Extent.Holds data) extents units) :
    (extents.map Span.ofExtent).mapM (fun span => NalUnit.ofBytes (span.bytes data))
      = .ok (units.map Parts.unit) := by
  induction h with
  | nil => rfl
  | cons hHolds _ ih =>
      rw [List.map_cons, List.mapM_cons, hHolds.2, Parts.ofBytes_bytes, ih]
      rfl

/-- Units that are located are split off whole. -/
theorem Layout.Finds.split {framing : Framing} (h : (layout framing data).Finds data units)
    (hCount : units.length ≤ maxUnits) :
    NalUnit.split framing data = .ok (units.map Parts.unit) := by
  rw [NalUnit.split, scan, h.fault, select_of_holds h.extents hCount]
  exact mapM_of_holds h.extents

end Found

/-- The last unit ends with the data. -/
theorem unitsAfterCode_of_none {unit : Bytes} (hUnit : unit ≠ []) (offset : Nat)
    (h : StartCode.find? unit = none) :
    unitsAfterCode offset unit = .cons ⟨unit.headD 0, offset, unit.length⟩ .done := by
  cases unit with
  | nil => contradiction
  | cons header rest =>
      rw [unitsAfterCode]
      split
      case h_1 => rfl
      case h_2 hCode => cases h.symm.trans hCode

/-- Any other unit ends before the next start code. -/
theorem unitsAfterCode_of_some {data : Bytes} {code : Nat} (hData : data ≠ []) (offset : Nat)
    (h : StartCode.find? data = some code) (hSize : sizeBefore data code ≠ 0) :
    unitsAfterCode offset data = .cons ⟨data.headD 0, offset, sizeBefore data code⟩
      (unitsAfterCode (offset + code + 3) (data.drop (code + 3))) := by
  cases data with
  | nil => contradiction
  | cons header rest =>
      rw [unitsAfterCode]
      split
      case h_1 hNone => cases h.symm.trans hNone
      case h_2 other hOther =>
        cases h.symm.trans hOther
        dsimp only
        rw [if_neg hSize]
        rfl

/-- Start codes of both forms begin directly behind the unit before them. -/
theorem sizeBefore_form {unit : Bytes} (hLast : unit.getLast? ≠ some 0) (form : StartCode.Form)
    (rest : Bytes) :
    sizeBefore (unit ++ (form.bytes ++ rest)) (unit.length + (form.zeros - 2)) = unit.length := by
  cases form with
  | short =>
      show sizeBefore _ unit.length = unit.length
      rw [sizeBefore, if_neg]
      rintro ⟨hSome, hZero⟩
      rw [List.getElem?_append_left (by omega), ← List.getLast?_eq_getElem?] at hZero
      exact hLast hZero
  | long =>
      show sizeBefore _ (unit.length + 1) = unit.length
      have hZero : (unit ++ (StartCode.Form.long.bytes ++ rest))[unit.length]? = some 0 := by
        rw [List.getElem?_append_right (Nat.le_refl _), Nat.sub_self]
        rfl
      rw [sizeBefore, if_pos ⟨Nat.succ_pos _, hZero⟩]
      rfl

namespace StartCode

theorem Form.bytes_append (form : Form) (rest : Bytes) :
    form.bytes ++ rest = List.replicate (form.zeros - 2 + 2) 0 ++ 1 :: rest := by
  cases form <;> rfl

theorem Form.length_bytes (form : Form) : form.bytes.length = form.zeros - 2 + 3 := by
  cases form <;> rfl

/-- The start code behind a unit is the first one from the start of the unit on. -/
theorem find?_form {unit : Bytes} (hCode : occurs unit = false) (hLast : unit.getLast? ≠ some 0)
    (form : Form) (rest : Bytes) :
    find? (unit ++ (form.bytes ++ rest)) = some (unit.length + (form.zeros - 2)) := by
  rw [find?_eq_bytewise, form.bytes_append, bytewise_append hCode hLast, Nat.zero_add]

end StartCode

/-- A unit that holds no start code and does not end with a zero byte ends where the start code behind it
begins, and the search goes on behind that. -/
theorem unitsAfterCode_form {unit : Bytes} (hUnit : unit ≠ []) (hCode : StartCode.occurs unit = false)
    (hLast : unit.getLast? ≠ some 0) (form : StartCode.Form) (offset : Nat) (rest : Bytes) :
    unitsAfterCode offset (unit ++ (form.bytes ++ rest))
      = .cons ⟨unit.headD 0, offset, unit.length⟩
          (unitsAfterCode (offset + (unit.length + form.bytes.length)) rest) := by
  have hFound := StartCode.find?_form hCode hLast form rest
  have hSize := sizeBefore_form hLast form rest
  have hSome : 0 < unit.length := List.length_pos_iff.mpr hUnit
  have hHead : (unit ++ (form.bytes ++ rest)).headD 0 = unit.headD 0 := by
    cases unit with
    | nil => contradiction
    | cons => rfl
  rw [unitsAfterCode_of_some (List.append_ne_nil_of_left_ne_nil hUnit _) offset hFound (by omega), hSize,
    hHead, Nat.add_assoc offset, Nat.add_assoc, ← form.length_bytes, ← List.drop_drop, List.drop_left,
    List.drop_left]

/-- Units behind start codes are located one after the other. -/
theorem finds_unitsAfterCode {data : Bytes} {offset : Nat} {parts : Parts}
    {coded : List (StartCode.Form × Parts)}
    (h : data.drop offset = parts.bytes ++ StartCode.stream coded) :
    (unitsAfterCode offset (data.drop offset)).Finds data (parts :: coded.map Prod.snd) := by
  induction coded generalizing offset parts with
  | nil =>
      have hNone : StartCode.find? parts.bytes = none :=
        (StartCode.find?_eq_none_iff _).mpr parts.occurs_bytes
      have hFinds := (Layout.Finds.done data).cons h
      rw [StartCode.stream, List.append_nil] at h
      rw [h, unitsAfterCode_of_none parts.bytes_ne_nil offset hNone]
      exact hFinds
  | cons next coded ih =>
      obtain ⟨form, following⟩ := next
      rw [StartCode.stream] at h
      have hBehind : data.drop (offset + (parts.bytes.length + form.bytes.length))
          = following.bytes ++ StartCode.stream coded := by
        rw [← List.drop_drop, h, ← List.drop_drop, List.drop_left, List.drop_left]
      rw [h, unitsAfterCode_form parts.bytes_ne_nil parts.occurs_bytes parts.getLast?_bytes, ← hBehind]
      exact (ih hBehind).cons h

/-- Behind any zeros in front, the units of a stream are found where they were written. -/
theorem finds_layout_stream (zeros : Nat) (coded : List (StartCode.Form × Parts)) :
    (layout .annexB (List.replicate zeros 0 ++ StartCode.stream coded)).Finds
      (List.replicate zeros 0 ++ StartCode.stream coded) (coded.map Prod.snd) := by
  cases coded with
  | nil =>
      have hNone : StartCode.find? (List.replicate zeros 0 ++ StartCode.stream []) = none := by
        rw [StartCode.stream, List.append_nil, StartCode.find?_eq_none_iff,
          StartCode.occurs_replicate]
      rw [layout, hNone]
      exact .done _
  | cons first coded =>
      obtain ⟨form, parts⟩ := first
      have hCode : StartCode.find? (List.replicate zeros 0 ++ StartCode.stream ((form, parts) :: coded))
          = some (zeros + (form.zeros - 2)) := by
        rw [StartCode.find?_eq_bytewise, StartCode.stream, form.bytes_append, ← List.append_assoc,
          List.replicate_append_replicate, ← Nat.add_assoc, StartCode.bytewise_zeros, Nat.zero_add]
      have hBehind : (List.replicate zeros 0 ++ StartCode.stream ((form, parts) :: coded)).drop
          (zeros + (form.zeros - 2) + 3) = parts.bytes ++ StartCode.stream coded := by
        have hLength : zeros + (form.zeros - 2) + 3
            = (List.replicate zeros (0 : UInt8)).length + form.bytes.length := by
          rw [form.length_bytes, List.length_replicate]
          omega
        rw [hLength, ← List.drop_drop, List.drop_left, StartCode.stream, List.drop_left]
      rw [layout, hCode]
      exact finds_unitsAfterCode hBehind

/-- Units behind length fields are located one after the other. -/
theorem exists_join_finds {size : LengthSize} {units : List Parts}
    (hFits : ∀ parts ∈ units, parts.bytes.length < 2 ^ (8 * size.bytes)) :
    ∃ packet, (Framing.lengthPrefixed size).join (units.map Parts.bytes) = .ok packet ∧
      ∀ data offset, data.drop offset = packet →
        (unitsByLength size offset packet).Finds data units := by
  induction units with
  | nil =>
      refine ⟨[], rfl, fun data offset _ => ?_⟩
      rw [unitsByLength_nil]
      exact .done data
  | cons parts units ih =>
      obtain ⟨packet, hPacket, hFinds⟩ := ih fun other h => hFits other (List.mem_cons_of_mem _ h)
      have hLength := hFits parts List.mem_cons_self
      refine ⟨bigEndianBytes size.bytes parts.bytes.length ++ (parts.bytes ++ packet), ?_, ?_⟩
      · have hFill : (Framing.lengthPrefixed size).fill (Framing.lengthPrefixed size).headerSize
            parts.bytes.length = .ok (bigEndianBytes size.bytes parts.bytes.length) := by
          rw [Framing.fill, if_neg (not_not.mpr rfl), Framing.header, Nat.one_shiftLeft,
            if_neg (Nat.not_le.mpr hLength)]
        rw [List.map_cons, Framing.join, hFill, hPacket]
        rfl
      · intro data offset hDrop
        have hField := length_bigEndianBytes size.bytes parts.bytes.length
        have hUnit : data.drop (offset + size.bytes) = parts.bytes ++ packet := by
          rw [← List.drop_drop, hDrop, List.drop_left' hField]
        have hRest : data.drop (offset + size.bytes + parts.bytes.length) = packet := by
          rw [← List.drop_drop, hUnit, List.drop_left]
        rw [unitsByLength_lengthField parts.bytes_ne_nil hLength]
        exact (hFinds data _ hRest).cons hUnit

end Nal

namespace NalUnit

open Nal

/-- Whatever they carry, up to 128 units are split off as they were framed, behind start codes of both
forms and any number of zero bytes, and behind length fields of every size that they fit. Each of them
carries what was put into it. Its header byte is made of its importance, in two bits, and the number of its
type, in five. -/
theorem split_framed {units : List Parts} (hCount : units.length ≤ 128) :
    (∀ zeros coded, coded.map Prod.snd = units →
      split .annexB (List.replicate zeros 0 ++ StartCode.stream coded)
        = .ok (units.map Parts.unit)) ∧
    (∀ length, 1 ≤ length → length ≤ 4 →
      (∀ parts ∈ units, parts.bytes.length < 2 ^ (8 * length)) →
      ∃ framing packet, Framing.ofLengthSize length = .ok framing ∧
        framing.join (units.map Parts.bytes) = .ok packet ∧
        split framing packet = .ok (units.map Parts.unit)) ∧
    ∀ parts ∈ units,
      parts.header.toNat = 32 * parts.unit.refIdc + parts.unit.type.code ∧
      parts.unit.refIdc < 4 ∧ parts.unit.type.code < 32 ∧ parts.unit.type.Proper ∧
      parts.unit.data = parts.header :: escape parts.rbsp ∧ parts.unit.rbsp = parts.rbsp := by
  refine ⟨?_, ?_, ?_⟩
  · rintro zeros coded rfl
    exact (finds_layout_stream zeros coded).split hCount
  · intro length hPos hFour hFits
    obtain ⟨packet, hPacket, hFinds⟩ := @exists_join_finds ⟨length, hPos, hFour⟩ units hFits
    have hLayout : (layout (.lengthPrefixed ⟨length, hPos, hFour⟩) packet).Finds packet units :=
      hFinds packet 0 rfl
    exact ⟨_, packet, Framing.ofLengthSize_bytes ⟨length, hPos, hFour⟩, hPacket,
      hLayout.split hCount⟩
  · intro parts _
    obtain ⟨hHeader, hIdc, hCode⟩ := parts.toNat_header
    exact ⟨hHeader, hIdc, hCode, UnitType.proper_ofHeader _, rfl, parts.rbsp_unit⟩

/-- Payloads full of start codes and escape bytes. -/
def sampleUnits : List Parts :=
  [{ header := 0x67, rbsp := [0, 0, 1, 0, 0, 0, 3] }, { header := 0x01, rbsp := [0, 0, 2] },
    { header := 0x65, rbsp := [0, 0, 0, 0, 1, 0x80] }]

/-- In each framing the three units are read back with their types, reference indications and
bytes. -/
theorem split_framed_sampleUnits :
    let units : List NalUnit := [⟨.sps, 3, [0x67, 0, 0, 3, 1, 0, 0, 3, 0, 3]⟩, ⟨.slice, 0, [0x01, 0, 0, 3, 2]⟩,
      ⟨.idr, 3, [0x65, 0, 0, 3, 0, 0, 3, 1, 0x80]⟩]
    sampleUnits.length ≤ 128 ∧
      split .annexB (List.replicate 5 0
          ++ StartCode.stream ([.short, .long, .short].zip sampleUnits)) = .ok units ∧
      (∀ parts ∈ sampleUnits, parts.bytes.length < 2 ^ (8 * 1)) ∧
      (∃ framing packet, Framing.ofLengthSize 1 = .ok framing ∧
        framing.join (sampleUnits.map Parts.bytes) = .ok packet ∧ split framing packet = .ok units) ∧
      units.map rbsp = [[0, 0, 1, 0, 0, 0, 3], [0, 0, 2], [0, 0, 0, 0, 1, 0x80]] := by
  have hCount : sampleUnits.length ≤ 128 := by decide
  have hFits : ∀ parts ∈ sampleUnits, parts.bytes.length < 2 ^ (8 * 1) := by decide
  obtain ⟨hStream, hLengths, -⟩ := split_framed hCount
  exact ⟨hCount, hStream 5 _ rfl, hFits, hLengths 1 (by decide) (by decide) hFits, rfl⟩

end NalUnit

end Cadence
