import Cadence.Bits.Written
import Cadence.Proofs.Bits.Field
import Cadence.Proofs.Outcome
import Cadence.SkipFrame

/-!
The frame number of a skipped picture: it stands at a fixed place, behind the framing, the header byte
and three code words, and it is the number asked for, as far as it fits (`SkipFrame.field_of_data`).
-/

namespace Cadence

/-- A number that is written between other bits is read back at its place. -/
theorem Bits.field_of_append {data : Bytes} {front back : List Bool} {width value : Nat}
    (h : ofBytes data = front ++ (ofNat width value ++ back)) :
    field data front.length width = value % 2 ^ width := by
  have hTake : (ofNat width value ++ back).take width = ofNat width value := by
    rw [List.take_append_of_le_length (by simp), List.take_of_length_le (by simp)]
  rw [field, h, List.drop_left, hTake, toNat_ofNat]

theorem Nal.length_bigEndianBytes (count value : Nat) :
    (bigEndianBytes count value).length = count := by
  induction count with
  | zero => rfl
  | succ count ih => rw [bigEndianBytes, List.length_cons, ih]

theorem Nal.Framing.length_of_header {framing : Framing} {length : Nat} {header : Bytes}
    (h : framing.header length = .ok header) : header.length = framing.headerSize := by
  unfold Framing.header at h
  split at h
  case h_1 =>
    cases h
    rfl
  case h_2 =>
    split at h <;> cases h
    exact length_bigEndianBytes _ _

namespace SkipFrame

/-- The syntax elements between the header byte and the frame number. -/
def leadBits : List Bool :=
  Bits.ue 0 ++ Bits.ue sliceType ++ Bits.ue 0

/-- The number of bits in a skipped picture that precede its frame number. -/
def numberPlace (s : SkipFrame) : Nat :=
  8 * s.framing.headerSize + 8 + leadBits.length

theorem exists_headerBits_eq (s : SkipFrame) (frameNum : Nat) :
    ∃ back, s.headerBits frameNum
      = (Bits.ofNat 8 headerByte ++ leadBits)
        ++ (Bits.ofNat s.sps.log2MaxFrameNum frameNum ++ back) := by
  apply Exists.intro
  simp only [headerBits, leadBits, List.append_assoc]
  rfl

/-- The frame number of a skipped picture is the one asked for, modulo the range of the field. -/
theorem field_of_data {s : SkipFrame} {frameNum : Nat} {data : Bytes}
    (h : s.data frameNum = .ok data) :
    Bits.field data s.numberPlace s.sps.log2MaxFrameNum
      = frameNum % 2 ^ s.sps.log2MaxFrameNum := by
  obtain ⟨header, hHeader, h⟩ := except_bind_eq_ok.mp h
  cases h
  obtain ⟨back, hBack⟩ := s.exists_headerBits_eq frameNum
  have hPlace : s.numberPlace
      = (Bits.ofBytes header ++ (Bits.ofNat 8 headerByte ++ leadBits)).length := by
    simp only [numberPlace, List.length_append, Bits.length_ofBytes, Bits.length_ofNat,
      Nal.Framing.length_of_header hHeader]
    omega
  rw [hPlace]
  apply Bits.field_of_append
  simp only [SkipFrame.header, Bits.ofBytes_append, BitWriter.ofBytes_finish,
    BitWriter.bits_writeRun, BitWriter.bits_empty, hBack, List.nil_append, List.append_assoc]
  rfl

end SkipFrame

end Cadence
