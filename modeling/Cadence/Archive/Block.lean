import Cadence.Archive.Repetition

/-!
Cutting data into bytes and repetitions, and these into blocks. A repetition gives way to a longer one
that starts a byte later.
-/

namespace Cadence.Archive

/-- What a word stands for. -/
inductive Token
  | byte (value : UInt8)
  | copy (repetition : Repetition)

namespace Token

/-- The number of bytes that a token stands for. -/
def length : Token → Nat
  | byte _ => 1
  | copy repetition => repetition.length

/-- The number of bytes that a token takes until it is packed. -/
def room : Token → Nat
  | byte _ => 1
  | copy _ => 3

end Token

/-- Tokens that are packed together. -/
structure Block where
  /-- The place of the first byte. -/
  start : Nat := 0
  tokens : Array Token := #[]
  /-- The number of bytes that the tokens stand for. -/
  size : Nat := 0
  /-- The number of bytes that they take until they are packed, apart from marks of their kinds. -/
  room : Nat := 0
  /-- The bytes can still be reached. -/
  isReachable : Bool := true

namespace Block

def add (block : Block) (token : Token) : Block :=
  { block with
    tokens := block.tokens.push token
    size := block.size + token.length
    room := block.room + token.room }

/-- The number of bytes that the tokens take until they are packed, with a byte of marks for eight of
them. -/
def roomWithMarks (block : Block) : Nat :=
  block.room + block.tokens.size / 8 + 1

/-- The block has to be ended: its tokens fill their room, or they are many and take about as much of
it as their bytes would. -/
def isFull (block : Block) : Bool :=
  block.roomWithMarks > 65528
    || (block.size > 31744 && block.roomWithMarks * 115 / 128 ≥ block.size)

end Block

/-- How far data has been cut. -/
structure Cut where
  /-- The blocks that have been ended. -/
  blocks : Array Block := #[]
  block : Block := {}
  here : Nat := 0
  /-- A repetition at the byte before, which has not become a token yet. -/
  held : Option Repetition := none

namespace Cut

/-- From this length on, a repetition does not give way. -/
def sureLength : Nat := 128

/-- Adds a token. -/
def add (cut : Cut) (token : Token) : Cut :=
  { cut with block := cut.block.add token }

/-- Uses a repetition that was found here. -/
def use (cut : Cut) (found : Repetition) : Cut :=
  if found.length < sureLength then { cut with here := cut.here + 1, held := some found }
  else { cut.add (.copy found) with here := cut.here + found.length, held := none }

/-- Goes on by at least a byte. -/
def step (chained : Chained) (cut : Cut) : Cut :=
  match cut.held, chained.find? cut.here ((cut.held.map Repetition.length).getD 2) with
  | some _, some found => (cut.add (.byte (chained.byte (cut.here - 1)))).use found
  | some held, none =>
    { cut.add (.copy held) with here := cut.here + held.length - 1, held := none }
  | none, some found => cut.use found
  | none, none => { cut.add (.byte (chained.byte cut.here)) with here := cut.here + 1 }

/-- Ends the block. `reach` is how far back bytes can be reached. -/
def endBlock (cut : Cut) (reach : Nat) : Cut :=
  let block := { cut.block with isReachable := cut.here - cut.block.start ≤ reach }
  { cut with blocks := cut.blocks.push block, block := { start := block.start + block.size } }

/-- Cuts the rest of data, in at most `steps` steps. -/
def rest (chained : Chained) : (steps reach : Nat) → Cut → Array Block
  | 0, reach, cut => (cut.endBlock reach).blocks
  | steps + 1, reach, cut =>
    if cut.here ≥ chained.data.size then (cut.endBlock reach).blocks
    else
      let next := cut.step chained
      let reach := min Repetition.windowSize (chained.reach cut.here + (next.here - cut.here))
      rest chained steps reach (if next.block.isFull then next.endBlock reach else next)

end Cut

/-- The blocks of data. The last one ends with the data, and may be empty. Each step goes on by at
least a byte. -/
def Chained.blocks (chained : Chained) : Array Block :=
  Cut.rest chained chained.data.size 0 {}

end Cadence.Archive
