import Cadence.Bits.Golomb

/-!
A writer that collects bits into bytes. Every operation appends a run of bits, and `BitWriter.bits`
says which bits have been written so far.
-/

namespace Cadence

/-- Bytes that are complete, and the bits of the next one. -/
structure BitWriter where
  complete : Array UInt8 := #[]
  pending : List Bool := []
  pending_lt : pending.length < 8 := by decide

namespace BitWriter

def empty : BitWriter := {}

/-- All bits written so far. -/
def bits (w : BitWriter) : List Bool :=
  Bits.ofBytes w.complete.toList ++ w.pending

def bitsWritten (w : BitWriter) : Nat :=
  8 * w.complete.size + w.pending.length

def isByteAligned (w : BitWriter) : Bool :=
  w.pending.isEmpty

/-- Appends one bit; the eighth of a byte completes it. -/
def writeBit (w : BitWriter) (bit : Bool) : BitWriter :=
  if h : w.pending.length < 7 then
    { w with pending := w.pending ++ [bit], pending_lt := by simp; omega }
  else
    { complete := w.complete.push (UInt8.ofNat (Bits.toNat (w.pending ++ [bit]))) }

/-- Appends a run of bits. -/
def writeRun (w : BitWriter) (run : List Bool) : BitWriter :=
  run.foldl writeBit w

/-- Appends the low `width` bits of a number. -/
def writeBits (w : BitWriter) (value width : Nat) : BitWriter :=
  w.writeRun (Bits.ofNat width value)

def writeUe (w : BitWriter) (value : Nat) : BitWriter :=
  w.writeRun (Bits.ue value)

def writeSe (w : BitWriter) (value : Int32) : BitWriter :=
  w.writeRun (Bits.se value)

/-- Appends zero bits up to the next byte boundary. -/
def align (w : BitWriter) : BitWriter :=
  if w.pending.isEmpty then w
  else w.writeRun (List.replicate (8 - w.pending.length) false)

/-- Appends whole bytes, which need not start at a byte boundary. -/
def writeBytes (w : BitWriter) (data : Bytes) : BitWriter :=
  if w.pending.isEmpty then { w with complete := w.complete ++ data }
  else data.foldl (fun w byte => w.writeRun (Bits.ofByte byte)) w

/-- The bytes written, the last one filled up with zero bits. -/
def finish (w : BitWriter) : Bytes :=
  w.align.complete.toList

end BitWriter

end Cadence
