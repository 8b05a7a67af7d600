import Cadence.RingBuffer
import Cadence.Ticks

/-!
How often something happens: ticks in microseconds are kept up to a number of them, and their rate
is taken over all of them or over the time up to the newest one.
-/

namespace Cadence

/-- The newest ticks, in microseconds. -/
structure TickRate where
  ticks : RingBuffer Ticks

namespace TickRate

/-- A meter that keeps at most `window` ticks. -/
def ofWindow (window : Nat) : Except Fault TickRate := do
  return ⟨← RingBuffer.ofCapacity window⟩

def add (meter : TickRate) (tick : Ticks) : TickRate :=
  ⟨meter.ticks.push tick⟩

def reset (meter : TickRate) : TickRate :=
  ⟨meter.ticks.clear⟩

/-- A number of ticks and the time in which they came. -/
structure Measure where
  count : Nat
  span : Ticks
  deriving DecidableEq, Repr

/-- The time in seconds, rounded on both sides of zero alike. -/
def Measure.seconds (measure : Measure) : Float :=
  let magnitude := (UInt64.ofNat measure.span.toInt.natAbs).toFloat / 1000000.0
  if measure.span < 0 then -magnitude else magnitude

/-- Ticks per second, and zero if nothing can be said. -/
def Measure.perSecond (measure : Measure) : Float :=
  if measure.count = 0 ∨ measure.seconds == 0.0 then 0.0
  else Float.ofNat measure.count / measure.seconds

/-- All ticks, of which the first one only starts the time. -/
def whole? (meter : TickRate) : Option Measure := do
  let first ← meter.ticks.oldest?
  let last ← meter.ticks.newest?
  return ⟨meter.ticks.size - 1, last - first⟩

/-- The ticks after the newest one that is at least `interval` older than the last tick; all of them
if they do not cover the interval. -/
def over? (meter : TickRate) (interval : Nat) : Option Measure := do
  let last ← meter.ticks.newest?
  let whole ← meter.whole?
  if interval = 0 ∨ whole.span < 0 then none
  else if whole.span < Ticks.clamp interval then some whole
  else
    let threshold := last - Ticks.clamp interval
    let newestFirst := meter.ticks.values.reverse
    let start ← newestFirst.find? (· ≤ threshold)
    some ⟨(newestFirst.takeWhile (· > threshold)).length, last - start⟩

/-- Ticks per second over all ticks that are kept. -/
def rate (meter : TickRate) : Float :=
  (meter.whole?.map Measure.perSecond).getD 0.0

/-- Ticks per second over the last `interval` microseconds. -/
def rateOver (meter : TickRate) (interval : Nat) : Float :=
  ((meter.over? interval).map Measure.perSecond).getD 0.0

end TickRate

end Cadence
