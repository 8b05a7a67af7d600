import Cadence.Archive.Codes

/-!
Unpacking. Packed data comes in blocks: plain bytes, or words of two codes for bytes and for
repetitions of what was written before.
-/

namespace Cadence.Archive

/-- Reads what is added to the number of a symbol. -/
def readStep (steps : List (Nat × Nat)) (symbol : Nat) : Reader Nat := do
  let (least, width) ← steps[symbol]?
  return least + (← readNat width)

/-- Writes `count` bytes again, each from `distance` bytes before it. -/
def repeatBytes (distance : Nat) : (count : Nat) → Array UInt8 → Array UInt8
  | 0, written => written
  | count + 1, written =>
    repeatBytes distance count (written.push (written.getD (written.size - distance) 0))

/-- Reads the rest of a block of words, in at most `steps` steps. -/
def readWords (codes : Codes) : (steps : Nat) → (written : Array UInt8) → Reader (Array UInt8)
  | 0, _ => failure
  | steps + 1, written => do
    let symbol ← codes.literals.read
    if symbol < endOfBlock then readWords codes steps (written.push (UInt8.ofNat symbol))
    else if symbol = endOfBlock then return written
    else
      let length ← readStep lengthSteps (symbol - endOfBlock - 1)
      let distance ← readStep distanceSteps (← codes.distances.read)
      if distance > written.size then failure
      readWords codes steps (repeatBytes distance length written)

/-- Reads `count` plain bytes. -/
def readPlain : (count : Nat) → (written : Array UInt8) → Reader (Array UInt8)
  | 0, written => pure written
  | count + 1, written => do
    readPlain count (written.push (UInt8.ofNat (← readNat 8)))

/-- Reads a block of plain bytes, whose number is written twice. -/
def readPlainBlock (written : Array UInt8) : Reader (Array UInt8) := do
  alignByte
  let count ← readNat 16
  if count + (← readNat 16) ≠ 65535 then failure
  readPlain count written

/-- Reads `count` numbers of three bits. -/
def readSmall : (count : Nat) → Reader (List Nat)
  | 0 => pure []
  | count + 1 => do
    let first ← readNat 3
    return first :: (← readSmall count)

/-- Reads lengths of words up to `count` of them, in at most `steps` steps; `before` are those in
front, the last one first. -/
def readLengths (code : PrefixCode) (count : Nat) : (steps : Nat) → (before : List Nat) →
    Reader (List Nat)
  | 0, _ => failure
  | steps + 1, before => do
    if before.length ≥ count then
      if before.length > count then failure
      return before.reverse
    match ← code.read with
    | 16 =>
      let last ← before.head?
      readLengths code count steps (List.replicate (3 + (← readNat 2)) last ++ before)
    | 17 => readLengths code count steps (List.replicate (3 + (← readNat 3)) 0 ++ before)
    | 18 => readLengths code count steps (List.replicate (11 + (← readNat 7)) 0 ++ before)
    | length => readLengths code count steps (length :: before)

/-- Reads the codes in front of a block. -/
def readCodes : Reader Codes := do
  let literals := 257 + (← readNat 5)
  let distances := 1 + (← readNat 5)
  let small ← readSmall (4 + (← readNat 4))
  if literals > 286 ∨ distances > 30 then failure
  let ordered := lengthOrder.zip small
  let code := PrefixCode.ofLengths ((List.range lengthOrder.length).map fun symbol =>
    (ordered.lookup symbol).getD 0)
  if !code.isComplete then failure
  let lengths ← readLengths code (literals + distances) (literals + distances + 1) []
  let codes : Codes :=
    ⟨.ofLengths (lengths.take literals), .ofLengths (lengths.drop literals)⟩
  if !codes.literals.isUsable || !codes.distances.isUsable then failure
  return codes

/-- Reads blocks up to the last one, in at most `steps` steps. -/
def readBlocks : (steps : Nat) → (written : Array UInt8) → Reader (Array UInt8)
  | 0, _ => failure
  | steps + 1, written => do
    let last ← readBit
    let written ← match ← readNat 2 with
      | 0 => readPlainBlock written
      | 1 => readWords fixedCodes ((← get).length + 1) written
      | 2 => do
        let codes ← readCodes
        readWords codes ((← get).length + 1) written
      | _ => failure
    if last then return written else readBlocks steps written

/-- Unpacks data. Every block and every word takes at least one bit. -/
def inflate : Reader Bytes := do
  return (← readBlocks ((← get).length + 1) #[]).toList

end Cadence.Archive
