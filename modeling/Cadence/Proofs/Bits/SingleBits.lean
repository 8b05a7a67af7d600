import Cadence.Proofs.Bits.Steps

/-!
Reading a field bit by bit. A field is the number of its bits, the most significant of which is read first
(`readBits_eq_each`). This holds wherever the cursor stands on the data, and no call, with whatever result,
takes it elsewhere (`afterAll_follows`).
-/

namespace Cadence.BitReader

variable {α : Type}

/-- Reads single bits, each of which is put behind the number read so far. -/
def readEach : (count value : Nat) → Read Nat
  | 0, value => return value
  | count + 1, value => do
    let bit ← readBit
    readEach count (2 * value + bit.toNat)

/-- Single bits are put behind the number read so far, by induction over them. -/
theorem reads_readEach (word : List Bool) (value : Nat) :
    Reads (readEach word.length value) word (value * 2 ^ word.length + Bits.toNat word) := by
  induction word generalizing value with
  | nil =>
      rw [List.length_nil, Nat.pow_zero, Nat.mul_one, Bits.toNat_nil, Nat.add_zero]
      exact .pure value
  | cons bit word ih =>
      have hValue : value * 2 ^ (word.length + 1) + (bit.toNat * 2 ^ word.length + Bits.toNat word)
          = (2 * value + bit.toNat) * 2 ^ word.length + Bits.toNat word := by
        rw [Nat.pow_succ]
        ring
      rw [List.length_cons, Bits.toNat_cons, hValue]
      exact (Reads.readBit bit).bind (ih _)

/-- A field that fits a word and lies on the data is read in one go as it is read bit by bit. -/
theorem readBits_eq_each {r : BitReader} {width : Nat} (hWidth : width ≤ 32) (hLeft : width ≤ r.left) :
    readBits width r
        = .ok (Bits.field r.data.toList r.position width) { r with position := r.position + width } ∧
      readEach width 0 r
        = .ok (Bits.field r.data.toList r.position width) { r with position := r.position + width } := by
  obtain ⟨word, back, rfl, hRest⟩ := exists_rest_eq hLeft
  have hField : Bits.field r.data.toList r.position word.length = Bits.toNat word := by
    rw [Bits.field, ← rest, hRest, List.take_left]
  have hEach := reads_readEach word 0 r back hRest
  rw [Nat.zero_mul, Nat.zero_add] at hEach
  rw [hField]
  exact ⟨Reads.readBits hWidth r back hRest, hEach⟩

/-- What a reader can be asked for. -/
inductive Call
  | bit
  | bits (width : Nat)
  | ue
  | se
  | skip (count : Nat)
  deriving DecidableEq, Repr

/-- The cursor behind a read, be there a value or a fault. -/
def cursor : EStateM.Result Fault BitReader α → BitReader
  | .ok _ r => r
  | .error _ r => r

def Call.after (r : BitReader) : Call → BitReader
  | bit => cursor (readBit r)
  | bits width => cursor (readBits width r)
  | ue => cursor (readUe r)
  | se => cursor (readSe r)
  | skip count => cursor (skipBits count r)

/-- The cursor behind a run of calls, each of which starts where the one before has left it. -/
def afterAll (r : BitReader) (calls : List Call) : BitReader :=
  calls.foldl Call.after r

theorem Read.Steady.readSe {allowed : Fault → Prop} (hEnd : allowed .endOfData)
    (hLong : allowed .golombTooLong) : Steady allowed readSe :=
  (readUe hEnd hLong).bind fun _ _ _ _ => .pure _

theorem cursor_follows {read : Read α} (h : Read.Steady (fun _ => True) read) (r : BitReader) :
    (cursor (read r)).Follows r := by
  cases hRead : read r with
  | ok a s => exact h.ok r a s hRead
  | error fault s => exact (h.error r fault s hRead).1

/-- Any call leaves the cursor on the same data, and within it. -/
theorem Call.after_follows (call : Call) (r : BitReader) : (call.after r).Follows r := by
  cases call with
  | bit => exact cursor_follows (.readBit trivial) r
  | bits width => exact cursor_follows (.readBits trivial (.inr trivial)) r
  | ue => exact cursor_follows (.readUe trivial trivial) r
  | se => exact cursor_follows (.readSe trivial trivial) r
  | skip count => exact cursor_follows (.skipBits trivial count) r

/-- Any number of calls leave the cursor on the same data, and within it. -/
theorem afterAll_follows (r : BitReader) (calls : List Call) : (afterAll r calls).Follows r := by
  induction calls generalizing r with
  | nil => exact .refl r
  | cons call calls ih => exact (ih (call.after r)).trans (call.after_follows r)

/-- Calls move a cursor over the data from its start to its end at most. -/
theorem within_afterAll (data : Bytes) (calls : List Call) :
    (afterAll (ofBytes data) calls).data = data.toArray ∧
      (afterAll (ofBytes data) calls).position ≤ 8 * data.length := by
  have hFollows := afterAll_follows (ofBytes data) calls
  have hWithin := hFollows.within (Nat.zero_le _)
  rw [Within, hFollows.data] at hWithin
  exact ⟨hFollows.data, by simpa [ofBytes] using hWithin⟩

end Cadence.BitReader
