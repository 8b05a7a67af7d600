/-!
The type of a NAL unit, as its header byte gives it.
-/

namespace Cadence.Nal

/-- The types that the filter tells apart; the others keep their number. -/
inductive UnitType
  /-- A slice of a picture that is not an instantaneous refresh. -/
  | slice
  /-- One of the three data partitions of a slice. -/
  | partition (id : Nat)
  /-- A slice of an instantaneous decoder refresh picture. -/
  | idr
  | sei
  | sps
  | pps
  | delimiter
  | endOfSequence
  | endOfStream
  | filler
  | unknown (id : Nat)
  deriving DecidableEq, Repr

namespace UnitType

/-- The type in the low five bits of a header byte. -/
def ofHeader (header : UInt8) : UnitType :=
  match header.toNat % 32 with
  | 1 => .slice
  | 2 => .partition 2
  | 3 => .partition 3
  | 4 => .partition 4
  | 5 => .idr
  | 6 => .sei
  | 7 => .sps
  | 8 => .pps
  | 9 => .delimiter
  | 10 => .endOfSequence
  | 11 => .endOfStream
  | 12 => .filler
  | id => .unknown id

/-- The number of a type. -/
def code : UnitType → Nat
  | .slice => 1
  | .partition id | .unknown id => id
  | .idr => 5
  | .sei => 6
  | .sps => 7
  | .pps => 8
  | .delimiter => 9
  | .endOfSequence => 10
  | .endOfStream => 11
  | .filler => 12

/-- The unit starts with a whole slice header. -/
def isSlice : UnitType → Bool
  | .slice | .idr => true
  | _ => false

def isIdr : UnitType → Bool
  | .idr => true
  | _ => false

def name : UnitType → String
  | .slice => "Slice"
  | .partition _ => "SlicePartition"
  | .idr => "IDR"
  | .sei => "SEI"
  | .sps => "SPS"
  | .pps => "PPS"
  | .delimiter => "AUD"
  | .endOfSequence => "EOSeq"
  | .endOfStream => "EOStream"
  | .filler => "Filler"
  | .unknown _ => "Unknown"

instance : ToString UnitType :=
  ⟨fun type => s!"{type.name}({type.code})"⟩

end UnitType

/-- The importance of a unit as a reference, from 0 to 3. -/
def refIdc (header : UInt8) : Nat :=
  header.toNat / 32 % 4

/-- The first bit of a header byte, which is zero in every valid unit. -/
def isForbidden (header : UInt8) : Bool :=
  header.toNat ≥ 128

end Cadence.Nal
