import Cadence.RingBuffer
import Cadence.Ticks

/-!
The bit rate of a stream over its newest chunks. Sums are kept while chunks come and go; sizes are
64-bit words, and times are counted in whole milliseconds chunk by chunk.
-/

namespace Cadence

namespace Bitrate

/-- The number of chunks that are taken into account. -/
def window : Nat := 200

/-- A chunk of data and the time since the one before it. -/
structure Chunk where
  size : UInt64
  milliseconds : Int64
  deriving DecidableEq

end Bitrate

/-- The newest chunks with the sums over them. -/
structure Bitrate where
  chunks : RingBuffer Bitrate.Chunk := .empty Bitrate.window (by decide)
  totalSize : UInt64 := 0
  windowMs : Int64 := 0
  /-- When the last chunk came, in microseconds. -/
  lastTime : Option Ticks := none

namespace Bitrate

def empty : Bitrate := {}

/-- The window has been full. -/
def isFull (meter : Bitrate) : Bool :=
  meter.chunks.isFull

/-- Whole milliseconds from one time to another. -/
def milliseconds (start stop : Ticks) : Int64 :=
  (stop - start) / 1000

/-- Takes the oldest chunk out of the sums if it is about to leave a full window. -/
def makeRoom (meter : Bitrate) : Bitrate :=
  match if meter.isFull then meter.chunks.oldest? else none with
  | none => meter
  | some oldest =>
    { meter with
      totalSize := meter.totalSize - oldest.size
      windowMs := meter.windowMs - oldest.milliseconds }

/-- Records a chunk that came at `now` microseconds. The first one only starts the time. -/
def record (meter : Bitrate) (size : UInt64) (now : Ticks) : Bitrate :=
  match meter.lastTime with
  | none => { meter with lastTime := some now }
  | some last =>
    let chunk : Chunk := ⟨size, milliseconds last now⟩
    let meter := meter.makeRoom
    { chunks := meter.chunks.push chunk
      totalSize := meter.totalSize + chunk.size
      windowMs := meter.windowMs + chunk.milliseconds
      lastTime := some now }

/-- Bits per second up to `now`. -/
def bitsPerSecond (meter : Bitrate) (now : Ticks) : UInt64 :=
  match meter.lastTime with
  | none => 0
  | some last =>
    let elapsed := milliseconds last now + meter.windowMs
    if meter.totalSize = 0 ∨ elapsed ≤ 0 then 0
    else meter.totalSize * 1000 * 8 / elapsed.toUInt64

end Bitrate

end Cadence
