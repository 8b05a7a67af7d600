import Cadence.Nal.Escape
import Cadence.Nal.Scan

/-!
NAL units that own their data.
-/

namespace Cadence

/-- A NAL unit with its header byte, and without start code or length. -/
structure NalUnit where
  type : Nal.UnitType
  refIdc : Nat
  data : Bytes
  deriving DecidableEq, Repr

namespace NalUnit

/-- Reads the header byte. -/
def ofBytes : Bytes → Except Fault NalUnit
  | [] => .error .emptyNal
  | header :: payload =>
    if Nal.isForbidden header then .error (.forbiddenBit header)
    else .ok ⟨.ofHeader header, Nal.refIdc header, header :: payload⟩

/-- What the unit carries, without header and escape bytes. -/
def rbsp (unit : NalUnit) : Bytes :=
  Nal.unescape unit.data.tail

/-- The units of a packet. -/
def split (framing : Nal.Framing) (data : Bytes) : Except Fault (List NalUnit) := do
  let scan ← Nal.scan framing data
  scan.spans.mapM fun span => ofBytes (span.bytes data)

end NalUnit

end Cadence
