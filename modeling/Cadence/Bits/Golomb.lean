import Cadence.Bits.Basic

/-!
Exp-Golomb code words as runs of bits.
-/

namespace Cadence.Bits

/-- The code word of `value`: the binary digits of its successor, behind as many zeros as there are
digits after the first. -/
def ue (value : Nat) : List Bool :=
  let extra := (value + 1).log2
  List.replicate extra false ++ ofNat (extra + 1) (value + 1)

/-- The unsigned code that stands for a signed number, as a 32-bit word: positive numbers take the
odd codes. -/
def seCode (value : Int32) : UInt32 :=
  if value > 0 then UInt32.ofNat (2 * value.toInt.natAbs - 1)
  else UInt32.ofNat (2 * value.toInt.natAbs)

/-- The code word of a signed number. -/
def se (value : Int32) : List Bool :=
  ue (seCode value).toNat

end Cadence.Bits
