import Cadence.Bits.Basic

/-!
Escape bytes. A payload is written so that no start code can arise in it: a byte of at most 3 that
would follow two zero bytes gets a byte 3 in front.
-/

namespace Cadence.Nal

/-- The number of zero bytes at the end of what has been read, after one more byte. -/
def countZeros (zeros : Nat) (byte : UInt8) : Nat :=
  if byte = 0 then zeros + 1 else 0

/-- Removes escape bytes from data that follows `zeros` zero bytes. -/
def unescapeAfter : (zeros : Nat) → Bytes → Bytes
  | _, [] => []
  | zeros, byte :: data =>
    if zeros ≥ 2 ∧ byte = 3 then unescapeAfter 0 data
    else byte :: unescapeAfter (countZeros zeros byte) data

/-- The payload without escape bytes. -/
def unescape (data : Bytes) : Bytes :=
  unescapeAfter 0 data

/-- Inserts escape bytes into data that follows `zeros` zero bytes. -/
def escapeAfter : (zeros : Nat) → Bytes → Bytes
  | _, [] => []
  | zeros, byte :: data =>
    if zeros ≥ 2 ∧ byte ≤ 3 then 3 :: byte :: escapeAfter (countZeros 0 byte) data
    else byte :: escapeAfter (countZeros zeros byte) data

/-- The payload with escape bytes. -/
def escape (data : Bytes) : Bytes :=
  escapeAfter 0 data

/-- Two zero bytes and a byte 3 follow each other somewhere. -/
def hasEscape : Bytes → Bool
  | 0 :: 0 :: 3 :: _ => true
  | _ :: data => hasEscape data
  | [] => false

end Cadence.Nal
