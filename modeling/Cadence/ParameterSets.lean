import Cadence.ConfigRecord
import Cadence.Nal.Unit
import Cadence.Outcome
import Cadence.Pps
import Cadence.Sps
import Cadence.Table

/-!
The parameter sets of a stream by their ids, and the framing of its packets. Both come from the data
that is stored beside the stream.
-/

namespace Cadence

/-- The units of a packet were cut off at the limit. -/
def Nal.Scan.events (scan : Nal.Scan) : List Event :=
  if scan.truncated then [.unitsLeftOut] else []

/-- The framing of a stream and its parameter sets. -/
structure ParameterSets where
  framing : Nal.Framing
  sps : Table Nat Sps := []
  pps : Table Nat Pps := []
  deriving DecidableEq, Repr

namespace ParameterSets

/-- Adds a parameter set, in place of the one with the same id. Other units are ignored. -/
def addUnit (sets : ParameterSets) (unit : NalUnit) : Except Fault ParameterSets :=
  match unit.type with
  | .sps => do
    let sps ← Sps.ofRbsp unit.rbsp
    return { sets with sps := sets.sps.put sps.id sps }
  | .pps => do
    let pps ← Pps.ofRbsp unit.rbsp
    return { sets with pps := sets.pps.put pps.id pps }
  | _ => .ok sets

/-- Adds a unit that is given with its header byte. -/
def addBytes (sets : ParameterSets) (data : Bytes) : Except Fault ParameterSets := do
  sets.addUnit (← NalUnit.ofBytes data)

/-- The parameter sets of a decoder configuration record. -/
def ofRecord (data : Bytes) : Except Fault ParameterSets := do
  let record ← ConfigRecord.ofBytes data
  (record.sps ++ record.pps).foldlM addBytes { framing := ← record.framing }

/-- The parameter sets among units behind start codes. -/
def ofAnnexB (data : Bytes) : Outcome Fault ParameterSets := do
  let scan ← Nal.scan .annexB data
  Outcome.note scan.events
  let units ← scan.spans.mapM fun span => NalUnit.ofBytes (span.bytes data)
  (units.foldlM addUnit { framing := .annexB } : Except Fault ParameterSets)

/-- The parameter sets that are stored beside a stream: a record if the first byte is its version
number, and otherwise units behind start codes. -/
def ofExtradata (data : Bytes) : Outcome Fault ParameterSets := do
  let sets ← match data with
    | [] => Outcome.ofExcept (.error .noExtradata)
    | 1 :: _ => Outcome.ofExcept (ofRecord data)
    | _ => ofAnnexB data
  Outcome.note [.parametersRead sets.framing sets.sps.length sets.pps.length]
  return sets

/-- A picture parameter set and the sequence parameter set that it refers to. -/
def active (sets : ParameterSets) (ppsId : Nat) : Except Fault (Pps × Sps) :=
  match sets.pps.lookup ppsId with
  | none => .error (.unknownPps ppsId)
  | some pps =>
    match sets.sps.lookup pps.spsId with
    | none => .error (.unknownSps ppsId pps.spsId)
    | some sps => .ok (pps, sps)

end ParameterSets

end Cadence
