import Cadence.Bits.Basic

/-!
Archives as runs of bits. The lowest bit of each byte comes first, and numbers are written from their
lowest bit on.
-/

namespace Cadence.Archive

/-- The `width` low bits of a number, lowest first. -/
def ofNat (width value : Nat) : List Bool :=
  (Bits.ofNat width value).reverse

/-- The number that a run of bits writes. -/
def toNat (bits : List Bool) : Nat :=
  Bits.toNat bits.reverse

/-- All bits of a run of bytes. -/
def ofBytes (data : Bytes) : List Bool :=
  data.flatMap fun byte => ofNat 8 byte.toNat

/-- The bytes that hold a run of bits, the last one filled up with zero bits. -/
def toBytes (bits : List Bool) : Bytes :=
  match bits with
  | [] => []
  | bit :: rest =>
    UInt8.ofNat (toNat ((bit :: rest).take 8)) :: toBytes (rest.drop 7)
termination_by bits.length
decreasing_by simp only [List.length_drop, List.length_cons]; omega

/-- A computation that takes bits off the front, or fails. -/
abbrev Reader (α : Type) := StateT (List Bool) Option α

def readBit : Reader Bool
  | [] => none
  | bit :: bits => some (bit, bits)

/-- Reads a number of `width` bits. -/
def readNat (width : Nat) : Reader Nat := fun bits =>
  let number := bits.take width
  if number.length < width then none else some (toNat number, bits.drop width)

/-- Goes on at the next byte. The bits of whole bytes are left behind it. -/
def alignByte : Reader Unit := fun bits =>
  some ((), bits.drop (bits.length % 8))

end Cadence.Archive
