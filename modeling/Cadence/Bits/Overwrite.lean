import Cadence.Bits.Basic
import Cadence.Fault

/-!
Changing bits of coded data in place.
-/

namespace Cadence.Bits

/-- Sets the bit that `index` bits precede, and leaves all others. -/
def setBit (data : Bytes) (index : Nat) (bit : Bool) : Bytes :=
  let mask : UInt8 := 1 <<< UInt8.ofNat (7 - index % 8)
  data.modify (index / 8) fun byte => if bit then byte ||| mask else byte &&& ~~~mask

/-- Sets consecutive bits from `index` on. -/
def setRun : (data : Bytes) → (index : Nat) → (run : List Bool) → Bytes
  | data, _, [] => data
  | data, index, bit :: run => setRun (setBit data index bit) (index + 1) run

/-- Replaces the `width` bits that `offset` bits precede by the low bits of `value`. A range that is
wider than 32 bits or does not lie within the data is refused. Bytes in front of the range are not
looked at. -/
def overwrite (data : Bytes) (offset width value : Nat) : Except Fault Bytes :=
  if width > 32 then .error (.overwriteWidth width)
  else if offset + width > 8 * data.length then
    .error (.overwriteRange offset width (8 * data.length))
  else
    .ok (data.take (offset / 8) ++ setRun (data.drop (offset / 8)) (offset % 8) (ofNat width value))

end Cadence.Bits
