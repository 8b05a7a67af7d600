import Cadence.Bits.Basic
import Cadence.Fault

/-!
A cursor over bytes that reads single bits, fields of up to 32 bits and Exp-Golomb code words. A
read that fails says where the cursor stopped: fixed fields leave it in place, code words leave it
behind the last bit that was looked at. Numbers that are worked out from what is read have 32 bits, and
one that needs more breaks the read off.
-/

namespace Cadence

/-- Bytes together with the number of bits that have been read from them. -/
structure BitReader where
  data : Array UInt8
  position : Nat
  deriving DecidableEq, Repr

namespace BitReader

def ofBytes (data : Bytes) : BitReader :=
  ⟨data.toArray, 0⟩

/-- The number of bits that have not been read. -/
def left (r : BitReader) : Nat :=
  8 * r.data.size - r.position

def atEnd (r : BitReader) : Bool :=
  r.left == 0

/-- A computation that moves the cursor, also when it fails. -/
abbrev Read (α : Type) := EStateM Fault BitReader α

/-- The result of a read from the start of some bytes, without the cursor. -/
def Read.value? {α : Type} (read : Read α) (data : Bytes) : Except Fault α :=
  match read (ofBytes data) with
  | .ok value _ => .ok value
  | .error fault _ => .error fault

def readBit : Read Bool := fun r =>
  match r.data[r.position / 8]? with
  | some byte => .ok (byte.toNat.testBit (7 - r.position % 8)) { r with position := r.position + 1 }
  | none => .error .endOfData r

/-- The `count` bits of a byte that follow its first `offset` bits, at the low end. -/
def chunk (byte : UInt8) (offset count : Nat) : UInt8 :=
  (byte >>> UInt8.ofNat (8 - offset - count)) &&& (0xFF >>> UInt8.ofNat (8 - count))

/-- Appends to `high` the `width` bits that `position` bits precede, taking from each byte as many as it
has. -/
def gather (data : Array UInt8) (position width high : Nat) : Nat :=
  if width = 0 then high
  else
    match data[position / 8]? with
    | none => high
    | some byte =>
      let count := min width (8 - position % 8)
      gather data (position + count) (width - count)
        ((high <<< count) ||| (chunk byte (position % 8) count).toNat)
termination_by width

/-- A field of at most 32 bits, most significant bit first. -/
def readBits (width : Nat) : Read Nat := fun r =>
  if width > 32 then .error (.readWidth width) r
  else if width > r.left then .error .endOfData r
  else
    .ok (gather r.data r.position width 0) { r with position := r.position + width }

def skipBits (count : Nat) : Read Unit := fun r =>
  if count > r.left then .error .endOfData r
  else .ok () { r with position := r.position + count }

/-- The number of zero bits before the next one bit, of which at most `allowed` are accepted. -/
def readZeros : (allowed : Nat) → Read Nat
  | 0 => do
    if ← readBit then return 0
    throw .golombTooLong
  | allowed + 1 => do
    if ← readBit then return 0
    return (← readZeros allowed) + 1

/-- An unsigned Exp-Golomb code word: zeros, a one bit, and as many further bits as zeros. -/
def readUe : Read Nat := do
  let zeros ← readZeros 31
  let low ← readBits zeros
  return (1 <<< zeros) - 1 + low

/-- The signed number that an unsigned code stands for: 0, 1, -1, 2, -2 and so on. -/
def signed (code : Nat) : Int :=
  if code % 2 = 1 then Int.ofNat ((code + 1) / 2) else -Int.ofNat (code / 2)

/-- A signed Exp-Golomb code word. -/
def readSe : Read Int := do
  return signed (← readUe)

/-- Reads an element a number of times and drops its values. -/
def skipMany {α : Type} (read : Read α) : Nat → Read Unit
  | 0 => pure ()
  | count + 1 => do
    let _ ← read
    skipMany read count

/-- A number that is kept in a word of 32 bits. -/
def fit (value : Nat) : Read Nat := do
  if UInt32.size ≤ value then throw .overflow
  return value

/-- An integer that is kept in a word of 32 bits, one of which is the sign. -/
def fitSigned (value : Int) : Read Int := do
  if value < Int32.minValue.toInt ∨ value > Int32.maxValue.toInt then throw .overflow
  return value

end BitReader

end Cadence
