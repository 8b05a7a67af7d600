/-!
Coded data as a run of bits, the most significant bit of each byte first. `Bits.ofBytes` is the
view through which readers and writers of bit streams are described.
-/

namespace Cadence

/-- Coded data. -/
abbrev Bytes := List UInt8

namespace Bits

/-- The low `width` bits of `value`, most significant first. -/
def ofNat : (width value : Nat) → List Bool
  | 0, _ => []
  | width + 1, value => value.testBit width :: ofNat width value

/-- The number that a run of bits stands for, most significant bit first. -/
def toNat (bits : List Bool) : Nat :=
  bits.foldl (fun value bit => 2 * value + bit.toNat) 0

/-- The eight bits of a byte. -/
def ofByte (byte : UInt8) : List Bool :=
  ofNat 8 byte.toNat

/-- All bits of a run of bytes. -/
def ofBytes (data : Bytes) : List Bool :=
  data.flatMap ofByte

@[simp] theorem length_ofNat (width value : Nat) : (ofNat width value).length = width := by
  induction width with
  | zero => rfl
  | succ width ih => simp [ofNat, ih]

@[simp] theorem length_ofByte (byte : UInt8) : (ofByte byte).length = 8 :=
  length_ofNat 8 _

@[simp] theorem ofBytes_nil : ofBytes [] = [] := rfl

@[simp] theorem ofBytes_cons (byte : UInt8) (data : Bytes) :
    ofBytes (byte :: data) = ofByte byte ++ ofBytes data := rfl

@[simp] theorem ofBytes_append (front back : Bytes) :
    ofBytes (front ++ back) = ofBytes front ++ ofBytes back :=
  List.flatMap_append

@[simp] theorem length_ofBytes (data : Bytes) : (ofBytes data).length = 8 * data.length := by
  induction data with
  | nil => rfl
  | cons byte data ih => simp [ih]; omega

@[simp] theorem toNat_nil : toNat [] = 0 := rfl

end Bits

end Cadence
