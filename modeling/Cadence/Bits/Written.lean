import Cadence.Bits.Lemmas
import Cadence.Bits.Writer

/-!
What a writer has written. Every operation appends its run of bits to `BitWriter.bits`, and the bytes
taken out at the end are these bits, filled up with zeros.
-/

namespace Cadence.BitWriter

@[simp] theorem bits_empty : empty.bits = [] := rfl

@[simp] theorem length_bits (w : BitWriter) : w.bits.length = w.bitsWritten := by
  simp [bits, bitsWritten]

/-- A bit goes behind all others, whether it completes a byte or not. -/
@[simp] theorem bits_writeBit (w : BitWriter) (bit : Bool) :
    (w.writeBit bit).bits = w.bits ++ [bit] := by
  unfold writeBit
  split
  case isTrue => simp [bits]
  case isFalse hFull =>
    have hLength : (w.pending ++ [bit]).length = 8 := by
      have := w.pending_lt
      rw [List.length_append, List.length_singleton]
      omega
    have hLt : Bits.toNat (w.pending ++ [bit]) < 256 := by
      simpa [hLength] using Bits.toNat_lt (w.pending ++ [bit])
    have hByte : Bits.ofByte (UInt8.ofNat (Bits.toNat (w.pending ++ [bit]))) = w.pending ++ [bit] := by
      rw [Bits.ofByte, UInt8.toNat_ofNat_of_lt' hLt, ← hLength, Bits.ofNat_toNat]
    simp [bits, hByte]

@[simp] theorem bits_writeRun (w : BitWriter) (run : List Bool) :
    (w.writeRun run).bits = w.bits ++ run := by
  induction run generalizing w with
  | nil => simp [writeRun]
  | cons bit run ih =>
      show ((w.writeBit bit).writeRun run).bits = _
      rw [ih, bits_writeBit, List.append_assoc, List.singleton_append]

@[simp] theorem bits_writeBits (w : BitWriter) (value width : Nat) :
    (w.writeBits value width).bits = w.bits ++ Bits.ofNat width value :=
  bits_writeRun w _

@[simp] theorem bits_writeUe (w : BitWriter) (value : Nat) :
    (w.writeUe value).bits = w.bits ++ Bits.ue value :=
  bits_writeRun w _

@[simp] theorem bits_writeSe (w : BitWriter) (value : Int32) :
    (w.writeSe value).bits = w.bits ++ Bits.se value :=
  bits_writeRun w _

/-- Whole bytes are written bit by bit, or at once at a byte boundary. -/
@[simp] theorem bits_writeBytes (w : BitWriter) (data : Bytes) :
    (w.writeBytes data).bits = w.bits ++ Bits.ofBytes data := by
  unfold writeBytes
  split
  case isTrue hAligned =>
    have hPending : w.pending = [] := List.isEmpty_iff.mp hAligned
    simp [bits, hPending]
  case isFalse hOpen =>
    clear hOpen
    induction data generalizing w with
    | nil => simp
    | cons byte data ih => rw [List.foldl_cons, ih]; simp

/-- The number of zero bits up to the next byte boundary. -/
def padding (w : BitWriter) : Nat :=
  if w.pending.isEmpty then 0 else 8 - w.pending.length

theorem padding_lt (w : BitWriter) : w.padding < 8 := by
  unfold padding
  split
  case isTrue => decide
  case isFalse hOpen =>
    have := List.length_pos_iff.mpr (mt List.isEmpty_iff.mpr hOpen)
    omega

theorem bits_align (w : BitWriter) :
    w.align.bits = w.bits ++ List.replicate w.padding false := by
  unfold align padding
  split <;> simp

/-- Nothing is pending after the last byte has been filled up. -/
theorem pending_align (w : BitWriter) : w.align.pending = [] := by
  have hLength : w.align.bits.length % 8 = 0 := by
    rw [bits_align, List.length_append, length_bits, List.length_replicate, bitsWritten, padding]
    have := w.pending_lt
    split
    case isTrue hAligned => simp [List.isEmpty_iff.mp hAligned]
    case isFalse => omega
  rw [length_bits, bitsWritten] at hLength
  have := w.align.pending_lt
  exact List.length_eq_zero_iff.mp (by omega)

/-- The bytes taken out hold the bits written and less than a byte of zeros behind them. -/
theorem ofBytes_finish (w : BitWriter) :
    Bits.ofBytes w.finish = w.bits ++ List.replicate w.padding false := by
  rw [← bits_align, finish, bits, pending_align, List.append_nil]

end Cadence.BitWriter
