import Cadence.Bits.Basic
import Cadence.Rational
import Cadence.Ticks

/-!
Packets: the coded data of one picture with its times.
-/

namespace Cadence

/-- The coded data of one picture. -/
structure Packet where
  data : Bytes := []
  /-- When the picture is shown. -/
  pts : Ticks := Ticks.unset
  /-- When the picture is decoded. -/
  dts : Ticks := Ticks.unset
  duration : Ticks := 0
  timeBase : Rational := Rational.undefined
  /-- The number of the stream that the packet belongs to. -/
  stream : Nat := 0
  /-- Decoding can start here. -/
  key : Bool := false
  corrupt : Bool := false
  deriving DecidableEq

namespace Packet

/-- A packet without times. -/
def ofData (data : Bytes) : Packet :=
  { data }

def size (packet : Packet) : Nat :=
  packet.data.length

def isEmpty (packet : Packet) : Bool :=
  packet.data.isEmpty

end Packet

end Cadence
