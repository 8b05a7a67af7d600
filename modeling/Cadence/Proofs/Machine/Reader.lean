import Cadence.Proofs.Bits.Reading
import Cadence.Proofs.Machine.Words

/-!
Reading bits on a machine. A read that is carried out on words gives what the read of bits gives, with
the cursor at the same place (`Agrees`), as long as the number of bits in the data fits a word.
-/

namespace Cadence.Machine

/-- A computation on words that moves a cursor. -/
abbrev Reader (α : Type) := StateT BitReader Machine α

def readBit : Reader Bool := fun r => do
  match r.data[r.position / 8]? with
  | none => ofExcept (.error .endOfData)
  | some byte =>
    let bits ← shr 8 byte.toNat (← sub 7 (r.position % 8))
    let position ← add 64 r.position 1
    return (1 &&& bits != 0, { r with position })

/-- Takes the rest of a field, or of a byte, whichever ends first. The state is the place, the number of
bits that are left, and the number read so far. -/
def chunkRound (data : Array UInt8) : Nat × Nat × Nat → Machine ((Nat × Nat × Nat) ⊕ Nat × Nat)
  | (position, left, value) => do
    if left = 0 then return .inr (value, position)
    let room ← sub 8 (position % 8)
    let count := min left room
    let byte ← index data.toList (position / 8)
    let high ← shr 8 byte.toNat (← sub room count)
    let mask ← shr 8 255 (← sub 8 count)
    let above ← shl 64 value count
    return .inl (← add 64 position count, ← sub left count, above ||| (high &&& mask))

def readBits (width : Nat) : Reader Nat := fun r => do
  if 32 < width then ofExcept (.error (.readWidth width))
  if (← mul 64 8 r.data.size) - r.position < width then ofExcept (.error .endOfData)
  let (value, position) ← loop (chunkRound r.data) (width + 1) (r.position, width, 0)
  return (value % 2 ^ 32, { r with position })

/-- Counts one more zero bit, of which 31 are allowed. -/
def zeroBitRound : Nat × BitReader → Machine ((Nat × BitReader) ⊕ Nat × BitReader)
  | (zeros, r) => do
    let (bit, r) ← readBit r
    if bit then return .inr (zeros, r)
    let zeros ← add 32 zeros 1
    if 31 < zeros then ofExcept (.error .golombTooLong)
    return .inl (zeros, r)

/-- The number of a code word with `zeros` zeros, whose last bits are those of `low`. -/
def ueValue (zeros low : Nat) : Machine Nat := do
  let power ← shl 64 1 zeros
  let value ← add 64 (← sub power 1) low
  return value % 2 ^ 32

def readUe : Reader Nat := do
  let zeros ← fun r => loop zeroBitRound 32 (0, r)
  let low ← readBits zeros
  ueValue zeros low

/-- Reads an element a number of times and drops its values. -/
def skipMany {α : Type} (read : Reader α) : Nat → Reader Unit
  | 0 => pure ()
  | count + 1 => do
    let _ ← read
    skipMany read count

/-- What a read gives, without the cursor after a fault. -/
def outcome {α : Type} : EStateM.Result Fault BitReader α → Machine (α × BitReader)
  | .ok value r => .ok (value, r)
  | .error fault _ => .error (.fault fault)

/-- A read on words goes on with the value and the cursor that the one before it leaves. -/
theorem Reader.bind_apply {α β : Type} (machine : Reader α) (after : α → Reader β) (r : BitReader) :
    (machine >>= after) r = machine r >>= fun pair => after pair.1 pair.2 := rfl

/-- What two reads give is what the second one gives behind the first. -/
theorem outcome_bind {α β : Type} (read : BitReader.Read α) (next : α → BitReader.Read β) (r : BitReader) :
    outcome ((read >>= next) r) = outcome (read r) >>= fun pair => outcome (next pair.1 pair.2) := by
  change outcome (EStateM.bind read next r) = _
  rw [EStateM.bind]
  cases read r <;> rfl

theorem eq_ok_of_outcome {α : Type} {result : EStateM.Result Fault BitReader α} {a : α} {s : BitReader}
    (h : outcome result = .ok (a, s)) : result = .ok a s := by
  cases result with
  | ok b t =>
      cases h
      rfl
  | error fault t => cases h

/-- The cursor lies on the data, and all its bits can be counted. -/
structure Sized (r : BitReader) : Prop where
  within : r.Within
  size : r.data.size < 2 ^ 60

/-- Reading on does not change the data, so that its bits can still be counted. -/
theorem Sized.follows {r s : BitReader} (h : Sized r) (hFollows : s.Follows r) : Sized s :=
  ⟨hFollows.within h.within, hFollows.data ▸ h.size⟩

/-- A read on words gives what a read of bits gives, and no number leaves its word on the way. -/
structure Agrees {α : Type} (machine : Reader α) (read : BitReader.Read α) : Prop where
  eq : ∀ r, Sized r → machine r = outcome (read r)
  steady : BitReader.Read.Steady (· ≠ .overflow) read

section Chunks

variable {data : Array UInt8} {position left value count : Nat} {byte : UInt8}

theorem toNat_chunk_eq (byte : UInt8) {offset count : Nat} (hPos : 0 < count) :
    (BitReader.chunk byte offset count).toNat
      = (byte.toNat >>> (8 - offset - count)) &&& (255 >>> (8 - count)) := by
  have hShift (amount : Nat) (h : amount < 8) : (UInt8.ofNat amount).toNat % 8 = amount := by
    rw [UInt8.toNat_ofNat_of_lt' (Nat.lt_trans h (by decide)), Nat.mod_eq_of_lt h]
  rw [BitReader.chunk, UInt8.toNat_and, UInt8.toNat_shiftRight, UInt8.toNat_shiftRight,
    hShift _ (by omega), hShift _ (by omega)]
  rfl

/-- The bits taken from one byte fit the room made for them. -/
theorem chunk_lt (byte : UInt8) {offset count : Nat} (hPos : 0 < count) (h : offset + count ≤ 8) :
    (BitReader.chunk byte offset count).toNat < 2 ^ count := by
  rw [BitReader.toNat_chunk byte hPos h]
  exact Nat.lt_of_lt_of_le (Bits.toNat_lt _)
    (Nat.pow_le_pow_right Nat.two_pos (List.length_take_le _ _))

/-- A field of at most 32 bits that is read in part. -/
structure Chunking (data : Array UInt8) (state : Nat × Nat × Nat) : Prop where
  within : state.1 + state.2.1 ≤ 8 * data.size
  width : state.2.1 ≤ 32
  value : state.2.2 < 2 ^ (32 - state.2.1)

/-- Before the first byte nothing has been gathered. -/
theorem Chunking.start {width : Nat} (hWidth : width ≤ 32) (hRange : position + width ≤ 8 * data.size) :
    Chunking data (position, width, 0) :=
  ⟨hRange, hWidth, Nat.two_pow_pos _⟩

/-- One chunk is taken from the byte that the cursor stands in. -/
theorem chunkRound_eq (hSize : 8 * data.size < 2 ^ 64) (h : Chunking data (position, left, value))
    (hLeft : 0 < left) (hByte : data[position / 8]? = some byte)
    (hCount : count = min left (8 - position % 8)) :
    chunkRound data (position, left, value)
      = .ok (.inl (position + count, left - count,
          (value <<< count) ||| (BitReader.chunk byte (position % 8) count).toNat)) := by
  have hWithin : position + left ≤ 8 * data.size := h.within
  have hWidth : left ≤ 32 := h.width
  have hPos : 0 < count ∧ count ≤ left ∧ count ≤ 8 - position % 8 := by omega
  have hIndex : index data.toList (position / 8) = .ok byte := by
    rw [index, Array.getElem?_toList, hByte]
  have hAbove : value * 2 ^ count < 2 ^ 64 :=
    calc value * 2 ^ count < 2 ^ (32 - left) * 2 ^ count :=
          Nat.mul_lt_mul_of_pos_right h.value (Nat.two_pow_pos _)
      _ = 2 ^ (32 - left + count) := (Nat.pow_add ..).symm
      _ ≤ 2 ^ 64 := Nat.pow_le_pow_right Nat.two_pos (by omega)
  rw [chunkRound, if_neg (by omega), sub_of_le (by omega), ok_bind, ← hCount, hIndex, ok_bind,
    sub_of_le hPos.2.2, ok_bind, shr_of_lt (by omega), ok_bind, sub_of_le (by omega), ok_bind,
    shr_of_lt (by omega), ok_bind, shl_of_lt (by omega) hAbove, ok_bind, add_of_lt (by omega), ok_bind,
    sub_of_le hPos.2.1, ok_bind, toNat_chunk_eq byte hPos.1]
  rfl

/-- A field that is not read whole goes on with a chunk, behind which it is still a field that is read in
part. -/
theorem exists_chunk (hSize : 8 * data.size < 2 ^ 64) (h : Chunking data (position, left, value))
    (hLeft : 0 < left) :
    ∃ count longer, 0 < count ∧ count ≤ left ∧
      chunkRound data (position, left, value) = .ok (.inl (position + count, left - count, longer)) ∧
      Chunking data (position + count, left - count, longer) ∧
      BitReader.gather data position left value
        = BitReader.gather data (position + count) (left - count) longer := by
  have hWithin : position + left ≤ 8 * data.size := h.within
  have hWidth : left ≤ 32 := h.width
  obtain ⟨byte, hByte⟩ : ∃ byte, data[position / 8]? = some byte :=
    ⟨data[position / 8], Array.getElem?_eq_getElem (by omega)⟩
  obtain ⟨count, hCount⟩ : ∃ count, count = min left (8 - position % 8) := ⟨_, rfl⟩
  have hChunk := @chunk_lt byte (position % 8) count (by omega) (by omega)
  refine ⟨count, _, by omega, by omega, chunkRound_eq hSize h hLeft hByte hCount, ⟨?_, ?_, ?_⟩, ?_⟩
  · show position + count + (left - count) ≤ 8 * data.size
    omega
  · show left - count ≤ 32
    omega
  · have hBits : 32 - (left - count) = 32 - left + count := by omega
    show _ < 2 ^ (32 - (left - count))
    rw [hBits]
    exact or_lt h.value hChunk
  · conv => lhs; rw [BitReader.gather]
    rw [if_neg (by omega), hByte, hCount]

theorem chunkRound_end (data : Array UInt8) (position value : Nat) :
    chunkRound data (position, 0, value) = .ok (.inr (value, position)) := by
  rw [chunkRound, if_pos rfl]
  rfl

/-- Byte by byte the loop gathers the number that the bits make up, by induction over the bits that
are left. -/
theorem rounds_chunkRound (hSize : data.size < 2 ^ 60) {state : Nat × Nat × Nat}
    (h : Chunking data state) :
    Rounds (chunkRound data) (Chunking data) (fun state => state.2.1)
      (fun state => .ok (BitReader.gather data state.1 state.2.1 state.2.2, state.1 + state.2.1))
      state := by
  obtain ⟨position, left, value⟩ := state
  rcases Nat.eq_zero_or_pos left with rfl | hLeft
  · refine .done (chunkRound_end data position value) ?_
    rw [BitReader.gather, if_pos rfl, Nat.add_zero]
  · obtain ⟨count, longer, hPos, hCount, hRound, hNext, hGather⟩ := exists_chunk (by omega) h hLeft
    refine .next hRound hNext ?_ ?_
    · show left - count < left
      omega
    · have hPlace : position + count + (left - count) = position + left := by omega
      dsimp only
      rw [hGather, hPlace]

/-- A field is not longer than its width, even where the data ends in the middle of it. -/
theorem gather_lt {bits : Nat} (data : Array UInt8) (position width : Nat) {high : Nat}
    (h : high < 2 ^ bits) : BitReader.gather data position width high < 2 ^ (bits + width) := by
  fun_induction BitReader.gather data position width high generalizing bits with
  | case1 => exact h
  | case2 => exact Nat.lt_of_lt_of_le h (Nat.pow_le_pow_right Nat.two_pos (Nat.le_add_right _ _))
  | case3 position width high hWidth byte hByte count =>
      rename_i ih
      have hCount : 0 < count ∧ count ≤ width ∧ position % 8 + count ≤ 8 := by
        simp only [count]
        omega
      have hBits : bits + width = bits + count + (width - count) := by omega
      rw [hBits]
      exact ih (or_lt h (chunk_lt byte hCount.1 hCount.2.2))

theorem gather_lt_word (data : Array UInt8) (position : Nat) {width : Nat} (h : width ≤ 32) :
    BitReader.gather data position width 0 < 2 ^ 32 :=
  Nat.lt_of_lt_of_le (@gather_lt 0 data position width 0 (by decide))
    (Nat.pow_le_pow_right Nat.two_pos (by omega))

/-- A number read from some bits has no more than these. -/
theorem lt_of_readBits {width value : Nat} {r s : BitReader}
    (h : BitReader.readBits width r = .ok value s) : value < 2 ^ width := by
  unfold BitReader.readBits at h
  split at h
  case isTrue => cases h
  case isFalse =>
    split at h <;> cases h
    have hField := @gather_lt 0 r.data r.position width 0 (by decide)
    rwa [Nat.zero_add] at hField

end Chunks

/-- Damaged data breaks nothing off. -/
theorem ne_overflow_of_category {fault : Fault} (h : fault.category = .invalidData) : fault ≠ .overflow := by
  rintro rfl
  cases h

namespace Agrees

variable {α β : Type}

theorem pure (a : α) : Agrees (pure a) (pure a) :=
  ⟨fun _ _ => rfl, .pure a⟩

/-- A value that is computed on words. -/
theorem value {a : α} {machine : Machine α} (h : machine = .ok a) :
    Agrees (liftM machine) (Pure.pure a) := by
  subst h
  exact .pure a

theorem fault {fault : Fault} (hData : fault.category = .invalidData) :
    Agrees (liftM (ofExcept (.error fault) : Machine α)) (throw fault) :=
  ⟨fun _ _ => rfl, .throw (ne_overflow_of_category hData)⟩

/-- One reader behind another agrees if both do, each behind the values that the first one can
give. -/
theorem bind {machine : Reader α} {read : BitReader.Read α} {after : α → Reader β}
    {next : α → BitReader.Read β} (first : Agrees machine read)
    (later : ∀ a r s, read r = .ok a s → Agrees (after a) (next a)) :
    Agrees (machine >>= after) (read >>= next) where
  eq := by
    intro r hSized
    rw [Reader.bind_apply, outcome_bind, first.eq r hSized]
    cases hRead : read r with
    | ok a s => exact (later a r s hRead).eq s (hSized.follows (first.steady.ok r a s hRead))
    | error fault s => rfl
  steady := first.steady.bind fun a r s hRead => (later a r s hRead).steady

theorem get : Agrees get get :=
  ⟨fun _ _ => rfl, ⟨fun r a s h => by cases h; exact .refl r, fun _ _ _ h => by cases h⟩⟩

/-- What is read and thrown away again and again is read alike. -/
theorem skipMany {machine : Reader α} {read : BitReader.Read α} (h : Agrees machine read)
    (count : Nat) : Agrees (skipMany machine count) (BitReader.skipMany read count) := by
  induction count with
  | zero => exact .pure ()
  | succ count ih => exact h.bind fun _ _ _ _ => ih

/-- A bit is read on words as on integers. -/
theorem readBit : Agrees readBit BitReader.readBit where
  eq := by
    intro r hSized
    have hSize := hSized.size
    have hWithin : r.position ≤ 8 * r.data.size := hSized.within
    rw [Machine.readBit, BitReader.readBit]
    cases hByte : r.data[r.position / 8]? with
    | none => rfl
    | some byte =>
        dsimp only
        rw [sub_of_le (by omega), ok_bind, shr_of_lt (by omega), ok_bind, add_of_lt (by omega)]
        rfl
  steady := .readBit nofun

/-- A field of up to 32 bits is a 32-bit word. -/
theorem readBits (width : Nat) : Agrees (readBits width) (BitReader.readBits width) where
  eq := by
    intro r hSized
    have hSize := hSized.size
    have hWithin : r.position ≤ 8 * r.data.size := hSized.within
    rw [Machine.readBits, BitReader.readBits]
    by_cases hWide : 32 < width
    · rw [if_pos hWide, if_pos hWide]
      rfl
    · rw [if_neg hWide, if_neg hWide, mul_of_lt (by omega), ok_bind]
      by_cases hLeft : 8 * r.data.size - r.position < width
      · rw [if_pos hLeft, if_pos (show width > r.left from hLeft)]
        rfl
      · have hFirst : Chunking r.data (r.position, width, 0) := .start (by omega) (by omega)
        have hLoop : loop (chunkRound r.data) (width + 1) (r.position, width, 0)
            = .ok (BitReader.gather r.data r.position width 0, r.position + width) :=
          loop_eq (fun state hState => rounds_chunkRound hSize hState) hFirst (Nat.lt_succ_self _)
        have hField := gather_lt_word r.data r.position (Nat.le_of_not_lt hWide)
        rw [if_neg hLeft, if_neg (show ¬ width > r.left from hLeft), hLoop]
        show Except.ok _ = _
        rw [Nat.mod_eq_of_lt hField]
        rfl
  steady := .readBits nofun (.inr nofun)

end Agrees

section CodeWords

variable {r s : BitReader} {allowed zeros : Nat} {fault : Fault}

theorem readZeros_of_error (h : BitReader.readBit r = .error fault s) :
    BitReader.readZeros allowed r = .error fault s := by
  cases allowed with
  | zero => exact BitReader.bind_eq_error.mpr (.inl h)
  | succ allowed => exact BitReader.bind_eq_error.mpr (.inl h)

theorem readZeros_of_one (h : BitReader.readBit r = .ok true s) :
    BitReader.readZeros allowed r = .ok 0 s := by
  cases allowed with
  | zero => exact BitReader.bind_eq_ok.mpr ⟨true, s, h, rfl⟩
  | succ allowed => exact BitReader.bind_eq_ok.mpr ⟨true, s, h, rfl⟩

/-- More zeros than are allowed are a fault. -/
theorem readZeros_of_last (h : BitReader.readBit r = .ok false s) :
    BitReader.readZeros 0 r = .error .golombTooLong s :=
  BitReader.bind_eq_error.mpr (.inr ⟨false, s, h, rfl⟩)

/-- A zero is counted, and the others are counted behind it. -/
theorem readZeros_of_zero (h : BitReader.readBit r = .ok false s) :
    outcome (BitReader.readZeros (allowed + 1) r)
      = (outcome (BitReader.readZeros allowed s)).map fun pair => (pair.1 + 1, pair.2) := by
  have hRest : BitReader.readZeros (allowed + 1) r
      = EStateM.bind (BitReader.readZeros allowed) (fun more => pure (more + 1)) s := by
    rw [BitReader.readZeros]
    change EStateM.bind _ _ r = _
    rw [EStateM.bind, h]
    rfl
  rw [hRest, EStateM.bind]
  cases BitReader.readZeros allowed s <;> rfl

/-- What is left of a code word whose first zeros have been read. -/
def zerosFrom (state : Nat × BitReader) : Machine (Nat × BitReader) :=
  (outcome (BitReader.readZeros (31 - state.1) state.2)).map fun pair => (state.1 + pair.1, pair.2)

theorem zeroBitRound_eq (hSized : Sized r) (hZeros : zeros ≤ 31) :
    zeroBitRound (zeros, r) = (do
      let (bit, r) ← outcome (BitReader.readBit r)
      if bit then return .inr (zeros, r)
      if 31 < zeros + 1 then ofExcept (.error .golombTooLong)
      return .inl (zeros + 1, r)) := by
  rw [zeroBitRound, Agrees.readBit.eq r hSized, add_of_lt (by omega)]
  rfl

/-- Bit by bit the loop counts the zeros up to the first one, and gives up behind the
thirty-first. -/
theorem rounds_zeroBitRound {state : Nat × BitReader} (h : state.1 ≤ 31 ∧ Sized state.2) :
    Rounds zeroBitRound (fun state => state.1 ≤ 31 ∧ Sized state.2) (fun state => 31 - state.1)
      zerosFrom state := by
  obtain ⟨zeros, r⟩ := state
  obtain ⟨hZeros, hSized⟩ : zeros ≤ 31 ∧ Sized r := h
  have hRound := zeroBitRound_eq hSized hZeros
  cases hRead : BitReader.readBit r with
  | error fault s =>
      rw [hRead] at hRound
      exact .failed hRound (by rw [zerosFrom, readZeros_of_error hRead]; rfl)
  | ok bit s =>
      rw [hRead, outcome, ok_bind] at hRound
      have hNext := hSized.follows (Agrees.readBit.steady.ok r bit s hRead)
      cases bit with
      | true => exact .done hRound (by rw [zerosFrom, readZeros_of_one hRead]; rfl)
      | false =>
          rcases Nat.lt_or_eq_of_le hZeros with hLess | rfl
          · have hLeft : 31 - zeros = 31 - (zeros + 1) + 1 := by omega
            have hAllowed : ¬ 31 < zeros + 1 := by omega
            have hStep : zeroBitRound (zeros, r) = .ok (.inl (zeros + 1, s)) := by
              rw [hRound]
              simp [hAllowed]
              rfl
            refine .next hStep ⟨hLess, hNext⟩ ?_ ?_
            · show 31 - (zeros + 1) < 31 - zeros
              omega
            · simp only [zerosFrom]
              rw [hLeft, readZeros_of_zero hRead]
              cases outcome (BitReader.readZeros (31 - (zeros + 1)) s) with
              | error halt => rfl
              | ok pair =>
                  show Except.ok (zeros + 1 + pair.1, pair.2) = .ok (zeros + (pair.1 + 1), pair.2)
                  rw [Nat.add_assoc, Nat.add_comm 1]
          · have hLast := readZeros_of_last hRead
            have hEnd : zeroBitRound (31, r) = .error (.fault .golombTooLong) := hRound
            refine .failed hEnd ?_
            simp only [zerosFrom, Nat.sub_self, hLast]
            rfl

/-- The zeros before a code are counted alike, up to the same limit. -/
theorem Agrees.readZeros :
    Agrees (fun r => loop zeroBitRound 32 (0, r)) (BitReader.readZeros 31) where
  eq := by
    intro r hSized
    have hFirst : (0, r).1 ≤ 31 ∧ Sized (0, r).2 := ⟨Nat.zero_le _, hSized⟩
    have hLoop : loop zeroBitRound 32 (0, r) = zerosFrom (0, r) :=
      loop_eq (fun state hState => rounds_zeroBitRound hState) hFirst (by dsimp only; decide)
    rw [hLoop, zerosFrom]
    cases BitReader.readZeros 31 r with
    | error fault s => rfl
    | ok zeros s => simp [outcome, Except.map]
  steady := .readZeros nofun nofun 31

/-- A code word gives a 32-bit word, as it has at most 31 zeros. -/
theorem ueValue_eq {low : Nat} (hZeros : zeros ≤ 31) (hLow : low < 2 ^ zeros) :
    ueValue zeros low = .ok ((1 <<< zeros) - 1 + low) := by
  have hPower : 2 ^ zeros ≤ 2 ^ 31 := Nat.pow_le_pow_right Nat.two_pos hZeros
  have hPos := Nat.two_pow_pos zeros
  rw [ueValue, shl_of_lt (by omega) (by omega), ok_bind, Nat.one_shiftLeft, sub_of_le hPos, ok_bind,
    add_of_lt (by omega), ok_bind, Nat.mod_eq_of_lt (by omega)]
  rfl

/-- Unsigned codes are read as on integers: with at most 31 zeros no value leaves its word. -/
theorem Agrees.readUe : Agrees readUe BitReader.readUe := by
  refine Agrees.readZeros.bind fun zeros r s hZeros => ?_
  refine (Agrees.readBits zeros).bind fun low r s hLow => ?_
  exact .value (ueValue_eq (BitReader.le_of_readZeros hZeros) (lt_of_readBits hLow))

end CodeWords

end Cadence.Machine
