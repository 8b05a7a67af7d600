import Cadence.Archive.Block
import Cadence.Archive.Codes
import Cadence.Archive.WordLengths

/-!
Packing. A block is written in codes that are made for it, or in the codes that need not be written
down if it is small, or as plain bytes if the codes do not save anything.
-/

namespace Cadence.Archive

/-- The last of some steps that is not above a number, with the bits that are added to it. -/
def stepOf (steps : List (Nat × Nat)) (value : Nat) : Nat × List Bool :=
  let symbol := (steps.takeWhile (·.1 ≤ value)).length - 1
  match steps[symbol]? with
  | some (least, width) => (symbol, ofNat width (value - least))
  | none => (symbol, [])

/-- The words of both codes. -/
structure Words where
  literals : Array (List Bool)
  distances : Array (List Bool)

def Codes.words (codes : Codes) : Words :=
  ⟨codes.literals.words 288, codes.distances.words 30⟩

/-- How often the symbols of both codes are used. -/
structure Counts where
  literals : Array Nat := Array.replicate 288 0
  distances : Array Nat := Array.replicate 30 0

namespace Counts

def addLiteral (counts : Counts) (symbol : Nat) : Counts :=
  { counts with literals := counts.literals.modify symbol (· + 1) }

def addDistance (counts : Counts) (symbol : Nat) : Counts :=
  { counts with distances := counts.distances.modify symbol (· + 1) }

end Counts

namespace Token

/-- Counts the symbols of a token. -/
def count (counts : Counts) : Token → Counts
  | byte value => counts.addLiteral value.toNat
  | copy ⟨length, distance⟩ =>
    (counts.addLiteral (endOfBlock + 1 + (stepOf lengthSteps length).1)).addDistance
      (stepOf distanceSteps distance).1

/-- Writes a token. -/
def write (words : Words) (written : Array Bool) : Token → Array Bool
  | byte value => written ++ words.literals.getD value.toNat []
  | copy ⟨length, distance⟩ =>
    let (lengthSymbol, lengthRest) := stepOf lengthSteps length
    let (distanceSymbol, distanceRest) := stepOf distanceSteps distance
    written ++ words.literals.getD (endOfBlock + 1 + lengthSymbol) [] ++ lengthRest
      ++ words.distances.getD distanceSymbol [] ++ distanceRest

end Token

/-- Symbols for lengths of words, with the bits that are added to them. -/
abbrev LengthSymbols := List (Nat × List Bool)

/-- The symbols for a run of zeros. -/
def zeros (count : Nat) : LengthSymbols :=
  if 138 ≤ count then (18, ofNat 7 127) :: zeros (count - 138)
  else if 11 ≤ count then [(18, ofNat 7 (count - 11))]
  else if 3 ≤ count then [(17, ofNat 3 (count - 3))]
  else List.replicate count (0, [])
termination_by count
decreasing_by omega

/-- The symbols for a length that is given again. -/
def repeats (length : Nat) (count : Nat) : LengthSymbols :=
  if 6 ≤ count then (16, ofNat 2 3) :: repeats length (count - 6)
  else if 3 ≤ count then [(16, ofNat 2 (count - 3))]
  else List.replicate count (length, [])

/-- The symbols for lengths of words. -/
def lengthSymbols (lengths : List Nat) : LengthSymbols :=
  (lengths.splitBy (· == ·)).flatMap fun run =>
    match run with
    | [] => []
    | 0 :: rest => zeros (rest.length + 1)
    | length :: rest => (length, []) :: repeats length rest.length

/-- Lengths without the zeros at their end, except for the first `least` ones. -/
def trimZeros (least : Nat) (lengths : List Nat) : List Nat :=
  lengths.take (max least (lengths.reverse.dropWhile (· = 0)).length)

/-- Writes the lengths of the words of both codes. -/
def lengthBits (literals distances : List Nat) : List Bool :=
  let literals := trimZeros 257 literals
  let distances := trimZeros 1 distances
  let symbols := lengthSymbols (literals ++ distances)
  let counts := symbols.foldl (fun counts entry => counts.modify entry.1 (· + 1))
    (Array.replicate lengthOrder.length 0)
  let lengths := wordLengths 7 counts
  let ordered := trimZeros 4 (lengthOrder.map fun symbol => lengths.getD symbol 0)
  let words := (PrefixCode.ofLengths lengths).words lengthOrder.length
  ofNat 5 (literals.length - 257) ++ ofNat 5 (distances.length - 1) ++ ofNat 4 (ordered.length - 4)
    ++ ordered.flatMap (ofNat 3) ++ symbols.flatMap fun entry => words.getD entry.1 [] ++ entry.2

namespace Block

/-- The codes of a block, and how they are written. -/
def codes (block : Block) : Codes × List Bool :=
  if block.size < 48 then (fixedCodes, ofNat 2 1)
  else
    let counts := block.tokens.foldl Token.count (Counts.addLiteral {} endOfBlock)
    let literals := wordLengths PrefixCode.maxLength counts.literals
    let distances := wordLengths PrefixCode.maxLength counts.distances
    (⟨.ofLengths literals, .ofLengths distances⟩, ofNat 2 2 ++ lengthBits literals distances)

/-- Writes the tokens of a block. -/
def writeTokens (block : Block) (written : Array Bool) : Array Bool :=
  let (codes, bits) := block.codes
  let words := codes.words
  block.tokens.foldl (Token.write words) (written ++ bits) ++ words.literals.getD endOfBlock []

/-- Writes the bytes of a block, whose number is written twice. -/
def writePlain (block : Block) (data : Array UInt8) (written : Array Bool) : Array Bool :=
  let written := written ++ ofNat 2 0
  let written := written ++ List.replicate ((8 - written.size % 8) % 8) false
  written ++ ofNat 16 block.size ++ ofNat 16 (65535 - block.size)
    ++ ofBytes (data.extract block.start (block.start + block.size)).toList

/-- Writes a block, which may be the last one. -/
def write (data : Array UInt8) (written : Array Bool) (block : Block) (isLast : Bool) : Array Bool :=
  let written := written.push isLast
  let packed := block.writeTokens written
  if 32 < block.size ∧ block.size ≤ packed.size / 8 - written.size / 8 + 1 ∧ block.isReachable then
    block.writePlain data written
  else packed

end Block

/-- Packs data. -/
def deflate (data : Bytes) : Bytes :=
  let chained := Chained.ofBytes data
  let blocks := chained.blocks
  toBytes (blocks.toList.zipIdx.foldl (fun written entry =>
    entry.1.write chained.data written (entry.2 + 1 = blocks.size)) #[]).toList

end Cadence.Archive
