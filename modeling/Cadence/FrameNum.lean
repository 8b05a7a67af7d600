import Cadence.Bits.Overwrite
import Cadence.ParameterSets

/-!
The frame number in slice headers: where it lies, how it is read from a packet, and how the slices of
a packet are renumbered in place. Bit offsets count from the first byte after the header byte of the
unit, escape bytes included, so a header with an escape byte before the end of the field is refused.
-/

namespace Cadence

open BitReader

/-- The frame number of a slice and its place in the payload. -/
structure FrameNum where
  value : Nat
  bitOffset : Nat
  bitWidth : Nat
  deriving DecidableEq, Repr

namespace FrameNum

/-- The number moved forward by `adjustment`, modulo the range of the field, in a 32-bit word. -/
def adjusted (field : FrameNum) (adjustment : UInt32) : Nat :=
  (field.value + adjustment.toNat) % (1 <<< field.bitWidth) % UInt32.size

/-- Reads a slice header up to the frame number. -/
def read (sets : ParameterSets) : Read FrameNum := do
  skipMany readUe 2
  let ppsId ← readUe
  if ppsId > 255 then throw (.slicePpsId ppsId)
  let sps ← match sets.active ppsId with
    | .ok (_, sps) => pure sps
    | .error fault => throw fault
  let bitOffset := (← get).position
  let value ← readBits sps.log2MaxFrameNum
  return { value, bitOffset, bitWidth := sps.log2MaxFrameNum }

/-- The number of bytes up to the end of the field. -/
def covered (field : FrameNum) : Nat :=
  (field.bitOffset + field.bitWidth + 7) / 8

/-- The frame number of a slice, given the payload of its unit. -/
def ofPayload (sets : ParameterSets) (payload : Bytes) : Except Fault FrameNum := do
  let field ← (read sets).value? payload
  if Nal.hasEscape (payload.take field.covered) then throw .escapedFrameNum
  return field

/-- The slices of a packet. -/
def slices (scan : Nal.Scan) : List Nal.Span :=
  scan.spans.filter fun span => span.type.isSlice

/-- The frame number of a slice of a packet; it is zero in a refresh picture. -/
def ofSlice (sets : ParameterSets) (data : Bytes) (span : Nal.Span) : Except Fault Nat :=
  if span.type.isIdr then .ok 0
  else do return (← ofPayload sets (span.payload data)).value

/-- The frame number of a packet: that of its last slice, and zero if it has none. -/
def ofPacket (sets : ParameterSets) (data : Bytes) : Outcome Fault Nat := do
  let scan ← Nal.scan sets.framing data
  Outcome.note scan.events
  ((slices scan).foldlM (fun _ span => ofSlice sets data span) 0 : Except Fault Nat)

end FrameNum

/-- What became of a packet whose slices were to be renumbered. -/
inductive Renumbering
  /-- All slices were renumbered; the number of the last one. -/
  | done (last : Nat)
  /-- The packet has a refresh picture or no slice, and is left alone. -/
  | endOfGop
  deriving DecidableEq, Repr

/-- The data of a packet after renumbering. Slices before a faulty one stay renumbered. -/
structure Renumbered where
  data : Bytes
  outcome : Outcome Fault Renumbering

namespace Renumbered

/-- Renumbers slices one after the other; `last` is the number of the one before. -/
def ofSlices (sets : ParameterSets) (adjustment : UInt32) :
    (spans : List Nal.Span) → (data : Bytes) → (last : Nat) → Renumbered
  | [], data, last => ⟨data, pure (.done last)⟩
  | span :: spans, data, _ =>
    let written : Except Fault (FrameNum × Bytes) := do
      let field ← FrameNum.ofPayload sets (span.payload data)
      let place := 8 * span.payloadStart + field.bitOffset
      return (field, ← Bits.overwrite data place field.bitWidth (field.adjusted adjustment))
    match written with
    | .error fault => ⟨data, ⟨.error fault, []⟩⟩
    | .ok (field, data) =>
      let value := field.adjusted adjustment
      let rest := ofSlices sets adjustment spans data value
      { rest with
        outcome := do
          Outcome.note [.frameNumRewritten field.value value adjustment]
          rest.outcome }

/-- Moves the frame numbers of all slices of a packet forward. -/
def ofPacket (sets : ParameterSets) (adjustment : UInt32) (data : Bytes) : Renumbered :=
  match Nal.scan sets.framing data with
  | .error fault => ⟨data, ⟨.error fault, []⟩⟩
  | .ok scan =>
    let spans := FrameNum.slices scan
    if spans.isEmpty ∨ spans.any (·.type.isIdr) then ⟨data, ⟨.ok .endOfGop, scan.events⟩⟩
    else
      let rest := ofSlices sets adjustment spans data 0
      { rest with
        outcome := do
          Outcome.note scan.events
          rest.outcome }

end Renumbered

end Cadence
