import Cadence.Bits.Basic
import Cadence.Fault

/-!
The two ways in which NAL units are joined into a packet: behind start codes, or behind their
length as a big-endian number of a fixed size.
-/

namespace Cadence.Nal

/-- The size in bytes of a length field. -/
structure LengthSize where
  bytes : Nat
  pos : 0 < bytes
  le_four : bytes ≤ 4
  deriving DecidableEq, Repr

def LengthSize.ofNat? (n : Nat) : Option LengthSize :=
  if h : 0 < n ∧ n ≤ 4 then some ⟨n, h.1, h.2⟩ else none

/-- How the units of a packet are told apart. -/
inductive Framing
  | annexB
  | lengthPrefixed (size : LengthSize)
  deriving DecidableEq, Repr

/-- The start code that is written before a unit. -/
def startCode : Bytes := [0, 0, 0, 1]

/-- The number that bytes write, most significant byte first. -/
def bigEndian (data : Bytes) : Nat :=
  data.foldl (fun value byte => 256 * value + byte.toNat) 0

/-- The low `count` bytes of a number, most significant first. -/
def bigEndianBytes : (count value : Nat) → Bytes
  | 0, _ => []
  | count + 1, value => UInt8.ofNat (value >>> (8 * count)) :: bigEndianBytes count value

namespace Framing

/-- Framing by length fields of a given size, which has to be from 1 to 4. -/
def ofLengthSize (size : Nat) : Except Fault Framing :=
  match LengthSize.ofNat? size with
  | some size => .ok (.lengthPrefixed size)
  | none => .error (.lengthSize size)

def isAnnexB : Framing → Bool
  | .annexB => true
  | .lengthPrefixed _ => false

/-- The number of bytes that are written before each unit. -/
def headerSize : Framing → Nat
  | .annexB => startCode.length
  | .lengthPrefixed size => size.bytes

/-- The bytes that are written before a unit of a given length. -/
def header : (framing : Framing) → (length : Nat) → Except Fault Bytes
  | .annexB, _ => .ok startCode
  | .lengthPrefixed size, length =>
    if length ≥ 1 <<< (8 * size.bytes) then .error (.nalTooLong length size.bytes)
    else .ok (bigEndianBytes size.bytes length)

/-- The contents of a buffer of `room` bytes after the header of a unit has been written to it. The
buffer has to have exactly the size of a header. -/
def fill (framing : Framing) (room length : Nat) : Except Fault Bytes :=
  if room ≠ framing.headerSize then .error (.headerRoom framing.headerSize room)
  else framing.header length

instance : ToString Framing where
  toString
    | .annexB => "AnnexB"
    | .lengthPrefixed size => s!"AVCC({size.bytes})"

end Framing

end Cadence.Nal
