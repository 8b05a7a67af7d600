import Cadence.Bits.Basic

/-!
The 32-bit cyclic redundancy check of archives, with the lowest bit of each byte first.
-/

namespace Cadence.Archive

/-- The polynomial of the check, with its bits reversed and without the highest one. -/
def polynomial : UInt32 := 0xEDB88320

/-- Divides by the polynomial for one more bit. -/
def reduceBit (remainder : UInt32) : UInt32 :=
  if remainder &&& 1 = 1 then (remainder >>> 1) ^^^ polynomial else remainder >>> 1

/-- Divides by the polynomial for `count` more bits. -/
def reduceBits : (count : Nat) → UInt32 → UInt32
  | 0, remainder => remainder
  | count + 1, remainder => reduceBits count (reduceBit remainder)

/-- The check of some bytes. -/
def checksum (data : Bytes) : UInt32 :=
  ~~~ data.foldl (fun remainder byte => reduceBits 8 (remainder ^^^ byte.toUInt32)) 0xFFFFFFFF

end Cadence.Archive
