import Cadence.FrameNum
import Cadence.SkipFrame

/-!
The state of the filter that keeps the picture rate of a stream constant. Where packets are missing
it puts in skipped pictures, and it renumbers the pictures behind them up to the next refresh.
-/

namespace Cadence

namespace Filter

/-- The name of this kind of filter. -/
def name : String := "h264_constrate"

/-- The longest gap, in pictures, that is filled. A longer one is a break in the stream. -/
def maxGap : Ticks := 1000

/-- What stays as it is over the life of a filter. -/
structure Setup where
  sets : ParameterSets
  skipFrame : SkipFrame
  timeBase : Rational
  /-- The time from one picture to the next. -/
  duration : Ticks
  duration_pos : 0 < duration
  label : String

/-- Skipped pictures that are still to be written. -/
structure SkipRun where
  remaining : Nat := 0
  nextDts : Ticks := 0
  nextFrameNum : Nat := 0
  deriving DecidableEq

/-- What the filter does with the packet it was given last. -/
inductive State
  /-- There is no such packet, or it has been given back. -/
  | idle
  /-- The packet waits until skipped pictures have been written. -/
  | holding (packet : Packet) (run : SkipRun)
  /-- The packet has to be renumbered. -/
  | adjusting (packet : Packet)
  /-- The packet can be given back. -/
  | releasing (packet : Packet)

namespace State

/-- The number of transitions before the next answer, at most. -/
def rank : State → Nat
  | .idle => 0
  | .holding .. => 2
  | .adjusting _ => 1
  | .releasing _ => 0

/-- The number of packets that are still to be given out. -/
def load : State → Nat
  | .idle => 0
  | .holding _ run => run.remaining + 1
  | .adjusting _ | .releasing _ => 1

end State

end Filter

/-- A filter with what it remembers of the stream. -/
structure Filter where
  setup : Filter.Setup
  state : Filter.State := .idle
  /-- The time of the packet that was sent last. -/
  lastDts : Ticks := Ticks.unset
  /-- The frame number of the packet that was given back last. -/
  lastFrameNum : Nat := 0
  /-- By how much frame numbers are moved until the next refresh. -/
  adjustment : UInt32 := 0

namespace Filter

def isIdle (f : Filter) : Bool :=
  match f.state with
  | .idle => true
  | _ => false

/-- A filter that has not seen a packet. -/
def start (setup : Setup) : Filter :=
  { setup }

/-- Gives the filter a name of its own for events and messages. -/
def withLabel (f : Filter) (label : String) : Filter :=
  { f with setup := { f.setup with label } }

/-- What a call did: the filter after it, its result, and its events. -/
structure Answer (α : Type) where
  filter : Filter
  result : Except Fault α
  events : List Event := []

/-- The events at the end of the life of a filter. -/
def close (f : Filter) : List Event :=
  [.filterClosed f.setup.label f.adjustment]

end Filter

end Cadence
