/-!
Time stamps and spans of time in units of a time base. They are 64-bit integers whose sums and
differences stop at the ends of the range, so that a stamp near an end never wraps to the other one.
-/

namespace Cadence

/-- A time stamp or a span of time, in units of some time base. -/
abbrev Ticks := Int64

namespace Ticks

/-- Marks a time stamp that has not been set. -/
def unset : Ticks := Int64.minValue

/-- The representable count nearest to an integer. -/
def clamp (x : Int) : Ticks :=
  Int64.ofIntClamp x

def addSat (a b : Ticks) : Ticks :=
  clamp (a.toInt + b.toInt)

def subSat (a b : Ticks) : Ticks :=
  clamp (a.toInt - b.toInt)

end Ticks

end Cadence
