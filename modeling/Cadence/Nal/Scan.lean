import Cadence.Nal.Framing
import Cadence.Nal.StartCode
import Cadence.Nal.UnitType

/-!
The places of the NAL units in a packet. Framing alone decides where units lie (`extents`); which of
them are reported depends on their headers and on a limit (`select`).
-/

namespace Cadence.Nal

/-- The bytes of one unit: its header, the header's offset, and its size with the header. -/
structure Extent where
  header : UInt8
  offset : Nat
  size : Nat
  deriving DecidableEq, Repr

/-- The units that were located, in order, and what made the search stop early. -/
structure Layout where
  extents : List Extent
  fault : Option Fault
  deriving DecidableEq, Repr

namespace Layout

def done : Layout := ⟨[], none⟩

def stopped (fault : Fault) : Layout := ⟨[], some fault⟩

def cons (extent : Extent) (layout : Layout) : Layout :=
  { layout with extents := extent :: layout.extents }

end Layout

/-- The size of a unit that the start code at `code` ends: a zero byte directly before the start code
belongs to the start code. -/
def sizeBefore (data : Bytes) (code : Nat) : Nat :=
  if 0 < code ∧ data[code - 1]? = some 0 then code - 1 else code

/-- The units of `data`, which follows a start code and whose first byte has the given offset. -/
def unitsAfterCode (offset : Nat) : (data : Bytes) → Layout
  | [] => .done
  | header :: rest =>
    match h : StartCode.find? (header :: rest) with
    | none => .cons ⟨header, offset, rest.length + 1⟩ .done
    | some code =>
      let size := sizeBefore (header :: rest) code
      if size = 0 then .stopped (.missingNal offset)
      else
        have := StartCode.find?_lt h
        .cons ⟨header, offset, size⟩
          (unitsAfterCode (offset + code + 3) ((header :: rest).drop (code + 3)))
termination_by data => data.length
decreasing_by
  simp only [List.length_drop, List.length_cons] at this ⊢
  omega

/-- The data has fewer than `count` bytes. No more of it is walked over. -/
def isShorter (data : Bytes) : (count : Nat) → Bool
  | 0 => false
  | count + 1 => (data.drop count).isEmpty

theorem isShorter_iff (data : Bytes) (count : Nat) : isShorter data count ↔ data.length < count := by
  cases count with
  | zero => simp [isShorter]
  | succ count =>
    simp only [isShorter, List.isEmpty_iff, List.drop_eq_nil_iff]
    omega

/-- The units behind length fields. What is left at the end and holds no more than a length field is
ignored. -/
def unitsByLength (size : LengthSize) (offset : Nat) (data : Bytes) : Layout :=
  if isShorter data (size.bytes + 1) then .done
  else
    let length := bigEndian (data.take size.bytes)
    let body := data.drop size.bytes
    if length = 0 ∨ isShorter body length then .stopped (.nalLength length body.length)
    else
      .cons ⟨body.headD 0, offset + size.bytes, length⟩
        (unitsByLength size (offset + size.bytes + length) (body.drop length))
termination_by data.length
decreasing_by
  have := size.pos
  simp only [isShorter_iff, List.length_drop] at *
  omega

/-- All units of a packet. -/
def layout (framing : Framing) (data : Bytes) : Layout :=
  match framing with
  | .annexB =>
    match StartCode.find? data with
    | none => .done
    | some code => unitsAfterCode (code + 3) (data.drop (code + 3))
  | .lengthPrefixed size => unitsByLength size 0 data

/-- The place and kind of a unit in a packet. -/
structure Span where
  type : UnitType
  refIdc : Nat
  /-- Offset of the header byte. -/
  offset : Nat
  /-- Size with the header byte. -/
  size : Nat
  deriving DecidableEq, Repr

namespace Span

def ofExtent (extent : Extent) : Span :=
  ⟨.ofHeader extent.header, Nal.refIdc extent.header, extent.offset, extent.size⟩

/-- Offset of the first byte after the header. -/
def payloadStart (span : Span) : Nat :=
  span.offset + 1

/-- Offset of the first byte after the unit. -/
def payloadEnd (span : Span) : Nat :=
  span.offset + span.size

/-- The unit with its header. -/
def bytes (span : Span) (data : Bytes) : Bytes :=
  (data.drop span.offset).take span.size

/-- The unit without its header. -/
def payload (span : Span) (data : Bytes) : Bytes :=
  (data.drop span.payloadStart).take (span.size - 1)

end Span

/-- The units that are reported, and whether further ones were left out. -/
structure Scan where
  spans : List Span
  truncated : Bool
  deriving DecidableEq, Repr

/-- The number of units that are reported for one packet. -/
def maxUnits : Nat := 128

/-- Takes units in order: one with the forbidden bit is passed over, and when there is no room for
another one the rest is left out. A fault counts only if it is reached. -/
def select : (room : Nat) → (extents : List Extent) → (fault : Option Fault) → Except Fault Scan
  | _, [], none => .ok ⟨[], false⟩
  | _, [], some fault => .error fault
  | 0, _ :: _, _ => .ok ⟨[], true⟩
  | room + 1, extent :: extents, fault =>
    if isForbidden extent.header then select (room + 1) extents fault
    else do
      let scan ← select room extents fault
      return { scan with spans := .ofExtent extent :: scan.spans }

/-- The units of a packet whose forbidden bit is clear, at most `maxUnits` of them. -/
def scan (framing : Framing) (data : Bytes) : Except Fault Scan :=
  let layout := layout framing data
  select maxUnits layout.extents layout.fault

end Cadence.Nal
