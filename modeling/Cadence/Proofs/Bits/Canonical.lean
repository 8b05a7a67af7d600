import Cadence.Bits.Written
import Cadence.Proofs.Bits.Steps

/-!
One code word for each number. The bits that are read as a number are the bits that are written for it,
whatever stands in front of them and behind them, so no number can be read from two different words. A
read fails only where the data ends within a word, or where it starts with more zeros than a word has
(`canonical_readUe`).
-/

namespace Cadence.BitReader

variable {r s : BitReader} {word : List Bool}

/-- The cursor goes from its place to the end of a word that stands there. -/
structure Takes (r : BitReader) (word : List Bool) (s : BitReader) : Prop where
  next : s = { r with position := r.position + word.length }
  bits : (Bits.ofBytes r.data.toList).extract r.position s.position = word

/-- The data ends behind the cursor, within the word that is written for a number. -/
def CutWord (r : BitReader) : Prop :=
  ∃ value ≤ 2 ^ 32 - 2, ∃ missing ≠ [],
    r.rest ++ missing = (BitWriter.empty.writeUe value).bits

theorem takes_iff :
    Takes r word s ↔
      s = { r with position := r.position + word.length } ∧ ∃ back, r.rest = word ++ back := by
  have hBits : (Bits.ofBytes r.data.toList).extract r.position (r.position + word.length) = word ↔
      ∃ back, r.rest = word ++ back := by
    rw [List.extract_eq_take_drop, Nat.add_sub_cancel_left, ← rest, eq_comm, ← List.prefix_iff_eq_take]
    exact exists_congr fun back => eq_comm
  constructor
  · rintro ⟨rfl, hWord⟩
    exact ⟨rfl, hBits.mp hWord⟩
  · rintro ⟨rfl, hWord⟩
    exact ⟨rfl, hBits.mpr hWord⟩

private theorem le_iff_succ_lt {value : Nat} : value ≤ 2 ^ 32 - 2 ↔ value + 1 < 2 ^ 32 := by
  omega

/-- A number is read where its word stands, and nowhere else. -/
theorem readUe_eq_ok_iff {value : Nat} :
    readUe r = .ok value s ↔ value ≤ 2 ^ 32 - 2 ∧ Takes r (Bits.ue value) s := by
  rw [takes_iff, le_iff_succ_lt]
  constructor
  · intro h
    obtain ⟨hValue, hRest, -⟩ := readUe_eq_ok h
    have hRead := Reads.readUe hValue r s.rest hRest
    exact ⟨hValue, (EStateM.Result.ok.inj (h.symm.trans hRead)).2, s.rest, hRest⟩
  · rintro ⟨hValue, rfl, back, hRest⟩
    exact Reads.readUe hValue r back hRest

/-- A signed code is read exactly where the writer's bits of a number stand. -/
theorem readSe_eq_ok_iff {value : Int} :
    readSe r = .ok value s ↔
      ∃ number : Int32, Int32.minValue < number ∧ number.toInt = value ∧ Takes r (Bits.se number) s := by
  constructor
  · intro h
    obtain ⟨code, t, hCode, hPure⟩ := bind_eq_ok.mp h
    cases hPure
    obtain ⟨hLess, hTakes⟩ := readUe_eq_ok_iff.mp hCode
    obtain ⟨number, hSigned, hNumber⟩ := exists_signedCode (le_iff_succ_lt.mp hLess)
    refine ⟨number, number.property, hSigned, ?_⟩
    rwa [Bits.se, hNumber]
  · rintro ⟨number, hNumber, rfl, hTakes⟩
    obtain ⟨rfl, back, hRest⟩ := takes_iff.mp hTakes
    exact Element.reads_se hNumber r back hRest

/-- A signed code fails exactly as an unsigned one does. -/
theorem readSe_eq_error_iff {fault : Fault} :
    readSe r = .error fault s ↔ readUe r = .error fault s :=
  bind_eq_error.trans (or_iff_left nofun)

/-- The two ways in which a read can fail. -/
theorem exists_readUe_eq_error_iff {fault : Fault} :
    (∃ s, readUe r = .error fault s) ↔
      fault = .endOfData ∧ CutWord r ∨
        fault = .golombTooLong ∧ List.replicate 32 false <+: r.rest := by
  constructor
  · rintro ⟨s, h⟩
    rcases Bits.ue_cases r.rest with ⟨value, back, hValue, hRest⟩ |
      ⟨value, missing, hValue, hMissing, hRest⟩ | ⟨back, hRest⟩
    · cases h.symm.trans (Reads.readUe hValue r back hRest)
    · obtain ⟨t, hStop⟩ := Stops.readUe hValue r missing hMissing hRest
      cases h.symm.trans hStop
      exact .inl ⟨rfl, value, le_iff_succ_lt.mpr hValue, missing, hMissing, by simpa using hRest⟩
    · obtain ⟨t, hLong⟩ := readUe_of_zeros hRest
      cases h.symm.trans hLong
      exact .inr ⟨rfl, back, hRest.symm⟩
  · rintro (⟨rfl, value, hValue, missing, hMissing, hRest⟩ | ⟨rfl, back, hRest⟩)
    · exact Stops.readUe (le_iff_succ_lt.mp hValue) r missing hMissing (by simpa using hRest)
    · exact readUe_of_zeros hRest.symm

/-- What a writer appends does not depend on what it has written before. -/
theorem writes_ue_iff {value : Nat} :
    (∀ w : BitWriter, (w.writeUe value).bits = w.bits ++ word) ↔ word = Bits.ue value := by
  constructor
  · intro h
    exact (h .empty).symm.trans (BitWriter.bits_writeUe _ value)
  · rintro rfl w
    exact w.bits_writeUe value

/-- The bits of a code are those that the writer puts behind any others. -/
theorem writes_se_iff {number : Int32} :
    (∀ w : BitWriter, (w.writeSe number).bits = w.bits ++ word) ↔ word = Bits.se number :=
  writes_ue_iff

/-- Wherever the cursor stands, an unsigned or a signed number is read exactly if the word that a writer
writes for it stands there. Otherwise the data ends within such a word, or 32 zeros follow. -/
theorem canonical_readUe (r : BitReader) :
    (∀ value s, readUe r = .ok value s ↔ value ≤ 2 ^ 32 - 2 ∧
        ∃ word, (∀ w : BitWriter, (w.writeUe value).bits = w.bits ++ word) ∧ Takes r word s) ∧
      (∀ value s, readSe r = .ok value s ↔ ∃ number : Int32, Int32.minValue < number ∧
        number.toInt = value ∧
        ∃ word, (∀ w : BitWriter, (w.writeSe number).bits = w.bits ++ word) ∧ Takes r word s) ∧
      (∀ fault s, readSe r = .error fault s ↔ readUe r = .error fault s) ∧
      ∀ fault, (∃ s, readUe r = .error fault s) ↔
        fault = .endOfData ∧ fault.category = .endOfStream ∧ CutWord r ∨
          fault = .golombTooLong ∧ fault.category = .invalidData ∧
            List.replicate 32 false <+: r.rest := by
  refine ⟨fun value s => ?_, fun value s => ?_, fun fault s => readSe_eq_error_iff, fun fault => ?_⟩
  · simp only [writes_ue_iff, exists_eq_left]
    exact readUe_eq_ok_iff
  · simp only [writes_se_iff, exists_eq_left]
    exact readSe_eq_ok_iff
  · rw [exists_readUe_eq_error_iff]
    refine or_congr (and_congr_right ?_) (and_congr_right ?_)
    · rintro rfl
      exact (and_iff_right rfl).symm
    · rintro rfl
      exact (and_iff_right rfl).symm

end Cadence.BitReader
