import Cadence.Archive.BitOrder

/-!
Prefix codes that are given by the lengths of their words. Words of one length are consecutive
numbers in the order of their symbols, and come after all shorter ones.
-/

namespace Cadence.Archive

/-- The symbols of a code, for words of one bit, of two bits, and so on. -/
abbrev PrefixCode := List (List Nat)

namespace PrefixCode

/-- The length that a word may have. -/
def maxLength : Nat := 15

/-- The code in which symbol `i` has a word of the `i`-th length; there is no word of length zero. -/
def ofLengths (lengths : List Nat) : PrefixCode :=
  (List.range maxLength).map fun length =>
    (lengths.zipIdx.filter fun entry => entry.1 = length + 1).map Prod.snd

/-- The number of symbols that have a word. -/
def size (code : PrefixCode) : Nat :=
  code.flatten.length

/-- The number of words of the next length that are left, out of `free` ones before. -/
def free? (code : PrefixCode) (free : Nat) : Option Nat :=
  code.foldlM (fun free symbols =>
    if symbols.length ≤ 2 * free then some (2 * free - symbols.length) else none) free

/-- Every run of bits begins with a word, and with one only. -/
def isComplete (code : PrefixCode) : Bool :=
  code.free? 1 == some 0

/-- The code can be used: it is complete, or it has at most one word. -/
def isUsable (code : PrefixCode) : Bool :=
  code.isComplete || code.size ≤ 1

/-- Reads the rest of a word, which is at `place` among the words that go on. -/
def readFrom : (code : PrefixCode) → (place : Nat) → Reader Nat
  | [], _ => failure
  | symbols :: longer, place => do
    let place := 2 * place + (← readBit).toNat
    match symbols[place]? with
    | some symbol => return symbol
    | none => readFrom longer (place - symbols.length)

/-- Reads a word. -/
def read (code : PrefixCode) : Reader Nat :=
  readFrom code 0

/-- The words of `width` bits and more with their symbols; `first` is the first of them. -/
def wordsFrom : (code : PrefixCode) → (width first : Nat) → List (Nat × List Bool)
  | [], _, _ => []
  | symbols :: longer, width, first =>
    symbols.zipIdx.map (fun entry => (entry.1, Bits.ofNat width (first + entry.2)))
      ++ wordsFrom longer (width + 1) (2 * (first + symbols.length))

/-- The words of the symbols below `size`; those without a word have an empty one. -/
def words (code : PrefixCode) (size : Nat) : Array (List Bool) :=
  (code.wordsFrom 1 0).foldl (fun words entry => words.setIfInBounds entry.1 entry.2)
    (Array.replicate size [])

end PrefixCode

end Cadence.Archive
