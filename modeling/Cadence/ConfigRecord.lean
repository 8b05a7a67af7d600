import Cadence.Nal.Framing

/-!
The decoder configuration record that containers keep beside a stream: the size of the length
fields, and the parameter sets as NAL units behind 16-bit lengths.
-/

namespace Cadence

/-- The parts of a decoder configuration record that are used here. -/
structure ConfigRecord where
  sps : List Bytes
  pps : List Bytes
  lengthSize : Nat
  deriving DecidableEq, Repr

namespace ConfigRecord

/-- Takes `count` parameter sets off the data; `index` is the number of the first one. -/
def takeSets (kind : SetKind) : (count index : Nat) → Bytes → Except Fault (List Bytes × Bytes)
  | 0, _, data => .ok ([], data)
  | count + 1, index, data =>
    match data with
    | high :: low :: rest =>
      let length := Nal.bigEndian [high, low]
      if length = 0 ∨ length > rest.length then
        .error (.recordDataCut kind index length rest.length)
      else do
        let (sets, after) ← takeSets kind count (index + 1) (rest.drop length)
        return (rest.take length :: sets, after)
    | _ => .error (.recordLengthCut kind index)

/-- Reads a record; what follows the last parameter set is ignored. -/
def ofBytes (data : Bytes) : Except Fault ConfigRecord :=
  match data with
  | version :: _ :: _ :: _ :: size :: counts :: next :: rest =>
    if version ≠ 1 then .error (.recordVersion version.toNat)
    else do
      let (sps, after) ← takeSets .sequence (counts.toNat % 32) 0 (next :: rest)
      match after with
      | [] => throw .recordWithoutPictureSets
      | count :: after => do
        let (pps, _) ← takeSets .picture count.toNat 0 after
        return ⟨sps, pps, size.toNat % 4 + 1⟩
  | _ => .error (.recordTooShort data.length)

/-- The parameter sets, each behind its length. -/
def setBytes : List Bytes → Except Fault Bytes
  | [] => .ok []
  | set :: sets =>
    if set.length > 65535 then .error (.setTooLong set.length)
    else do
      let rest ← setBytes sets
      return Nal.bigEndianBytes 2 set.length ++ set ++ rest

/-- Writes a record; profile and level are those of the first sequence parameter set. -/
def toBytes (record : ConfigRecord) : Except Fault Bytes := do
  let framing ← Nal.Framing.ofLengthSize record.lengthSize
  match record.sps with
  | [] => throw .noSequenceSet
  | (_ :: profile :: constraints :: level :: _) :: _ =>
    if record.sps.length > 31 ∨ record.pps.length > 255 then
      throw (.tooManySets record.sps.length record.pps.length)
    let sps ← setBytes record.sps
    let pps ← setBytes record.pps
    return [1, profile, constraints, level, 0xFC ||| UInt8.ofNat (framing.headerSize - 1),
      0xE0 ||| UInt8.ofNat record.sps.length] ++ sps
      ++ UInt8.ofNat record.pps.length :: pps
  | _ => throw .shortSequenceSet

/-- The framing of the stream that a record describes. -/
def framing (record : ConfigRecord) : Except Fault Nal.Framing :=
  Nal.Framing.ofLengthSize record.lengthSize

end ConfigRecord

end Cadence
