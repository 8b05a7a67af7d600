import Cadence.Proofs.Bits.SingleBits
import Cadence.Proofs.Machine.Builds

/-!
Cursors on a machine. The cursor of a reader belongs to the caller, who may go on reading behind a fault. So
it is moved bit by bit and chunk by chunk, and where it stands when a computation stops is there to be seen
(`Tracks`). No sequence of calls takes it off the data, and from wherever it stands, a field is read in chunks
as it is read bit by bit (`readBits_eq_readEach`).
-/

namespace Cadence.Machine

/-- A computation on words that moves a cursor. It stays where it is when the computation stops. -/
abbrev Moving (α : Type) := EStateM Halt BitReader α

/-- A computation that does not move the cursor. -/
def unmoved {α : Type} (machine : Machine α) : Moving α := fun r =>
  match machine with
  | .ok a => .ok a r
  | .error halt => .error halt r

instance : MonadLift Machine Moving := ⟨unmoved⟩

namespace Moving

def readBit : Moving Bool := do
  let r ← get
  match r.data[r.position / 8]? with
  | none => (ofExcept (.error .endOfData) : Machine Bool)
  | some byte =>
    let bits ← shr 8 byte.toNat (← sub 7 (r.position % 8))
    set { r with position := ← add 64 r.position 1 }
    return 1 &&& bits != 0

/-- Takes the rest of a field in chunks, behind each of which it puts the cursor. -/
def takeChunks : (rounds left value : Nat) → Moving Nat
  | 0, _, _ => (stop .endless : Machine Nat)
  | rounds + 1, left, value => do
    let r ← get
    match ← chunkRound r.data (r.position, left, value) with
    | .inr (value, _) => return value
    | .inl (position, left, value) =>
      set { r with position }
      takeChunks rounds left value

def readBits (width : Nat) : Moving Nat := do
  if 32 < width then (ofExcept (.error (.readWidth width)) : Machine Unit)
  let r ← get
  if (← mul 64 8 r.data.size) - r.position < width then (ofExcept (.error .endOfData) : Machine Unit)
  return (← takeChunks (width + 1) width 0) % 2 ^ 32

/-- Counts the zero bits in front of the next one bit, behind those that have been counted. -/
def countZeros : (rounds zeros : Nat) → Moving Nat
  | 0, _ => (stop .endless : Machine Nat)
  | rounds + 1, zeros => do
    if ← readBit then return zeros
    let zeros ← add 32 zeros 1
    if 31 < zeros then (ofExcept (.error .golombTooLong) : Machine Unit)
    countZeros rounds zeros

def readUe : Moving Nat := do
  let zeros ← countZeros 32 0
  let low ← readBits zeros
  ueValue zeros low

def readSe : Moving Int := do
  let code ← readUe
  Build.checked.seValue code

def skipBits (count : Nat) : Moving Unit := do
  let r ← get
  if (← mul 64 8 r.data.size) - r.position < count then (ofExcept (.error .endOfData) : Machine Unit)
  set { r with position := ← add 64 r.position count }

/-- Reads single bits, each of which is put behind the number read so far. -/
def readEach : (count value : Nat) → Moving Nat
  | 0, value => return value
  | count + 1, value => do
    let bit ← readBit
    readEach count (2 * value + bit.toNat)

variable {α β : Type}

theorem get_bind (next : BitReader → Moving β) (r : BitReader) : (get >>= next) r = next r r := rfl

theorem ok_bind (a : α) (next : α → Moving β) :
    ((liftM (Except.ok a : Machine α) : Moving α) >>= next) = next a := rfl

end Moving

section Tracks

variable {α β : Type}

/-- What a read gives and where it leaves the cursor. -/
def ending : EStateM.Result Fault BitReader α → EStateM.Result Halt BitReader α
  | .ok a r => .ok a r
  | .error fault r => .error (.fault fault) r

/-- The cursor lies on the data, and the number of bits in the data fits a word. -/
structure Countable (r : BitReader) : Prop where
  within : r.Within
  bits : 8 * r.data.size < 2 ^ 64

/-- Reading on does not change the data, so that its bits can still be counted. -/
theorem Countable.follows {r s : BitReader} (h : Countable r) (hFollows : s.Follows r) : Countable s :=
  ⟨hFollows.within h.within, hFollows.data ▸ h.bits⟩

/-- A read on words gives what a read of bits gives, and leaves the cursor where that leaves it. -/
structure Tracks (machine : Moving α) (read : BitReader.Read α) : Prop where
  eq : ∀ r, Countable r → machine r = ending (read r)
  steady : BitReader.Read.Steady (fun _ => True) read

namespace Tracks

theorem value {a : α} {machine : Machine α} (h : machine = .ok a) :
    Tracks (liftM machine) (pure a) where
  eq := by
    subst h
    exact fun _ _ => rfl
  steady := .pure a

/-- A value that is refused ends both readers with the same fault, at the same cursor. -/
theorem refused (fault : Fault) (after : β → Moving α) :
    Tracks ((liftM (ofExcept (.error fault) : Machine β) : Moving β) >>= after) (throw fault) :=
  ⟨fun _ _ => rfl, .throw trivial⟩

/-- One reader behind another keeps track if both do. -/
theorem bind {machine : Moving α} {read : BitReader.Read α} {after : α → Moving β}
    {next : α → BitReader.Read β} (first : Tracks machine read)
    (later : ∀ a r s, read r = .ok a s → Tracks (after a) (next a)) :
    Tracks (machine >>= after) (read >>= next) where
  eq := by
    intro r hCountable
    change EStateM.bind machine after r = ending (EStateM.bind read next r)
    rw [EStateM.bind, first.eq r hCountable, EStateM.bind]
    cases hRead : read r with
    | ok a s => exact (later a r s hRead).eq s (hCountable.follows (first.steady.ok r a s hRead))
    | error fault s => rfl
  steady := first.steady.bind fun a r s hRead => (later a r s hRead).steady

/-- A bit is read at the same cursor, and moves it by one. -/
theorem readBit : Tracks Moving.readBit BitReader.readBit where
  eq := by
    intro r hCountable
    have hBits := hCountable.bits
    have hWithin : r.position ≤ 8 * r.data.size := hCountable.within
    rw [Moving.readBit, Moving.get_bind, BitReader.readBit]
    cases hByte : r.data[r.position / 8]? with
    | none => rfl
    | some byte =>
        dsimp only
        rw [sub_of_le (by omega), Moving.ok_bind, shr_of_lt (by omega), Moving.ok_bind,
          add_of_lt (by omega)]
        rfl
  steady := .readBit trivial

/-- Chunks are taken up to the end of a field, and the cursor is put behind the last. -/
theorem takeChunks_eq {rounds left value : Nat} {r : BitReader} (hBits : 8 * r.data.size < 2 ^ 64)
    (h : Chunking r.data (r.position, left, value)) (hEnough : left < rounds) :
    Moving.takeChunks rounds left value r
      = .ok (BitReader.gather r.data r.position left value) { r with position := r.position + left } := by
  induction rounds generalizing left value r with
  | zero => exact absurd hEnough (Nat.not_lt_zero _)
  | succ rounds ih =>
      rw [Moving.takeChunks, Moving.get_bind]
      rcases Nat.eq_zero_or_pos left with rfl | hLeft
      · rw [chunkRound_end, BitReader.gather, if_pos rfl]
        rfl
      · obtain ⟨count, longer, hPos, hCount, hRound, hNext, hGather⟩ := exists_chunk hBits h hLeft
        have hPlace : r.position + count + (left - count) = r.position + left := by omega
        have hRest := @ih (left - count) longer { r with position := r.position + count } hBits hNext
          (by omega)
        rw [hRound, Moving.ok_bind, hGather, ← hPlace]
        exact hRest

/-- A number of bits is read at the same cursor, which stays where it is if they are refused. -/
theorem readBits (width : Nat) : Tracks (Moving.readBits width) (BitReader.readBits width) where
  eq := by
    intro r hCountable
    have hBits := hCountable.bits
    have hWithin : r.position ≤ 8 * r.data.size := hCountable.within
    rw [Moving.readBits, BitReader.readBits]
    by_cases hWide : 32 < width
    · rw [if_pos hWide, if_pos hWide]
      rfl
    · rw [if_neg hWide, if_neg hWide]
      dsimp only
      rw [Moving.get_bind, mul_of_lt hBits, Moving.ok_bind]
      by_cases hLeft : 8 * r.data.size - r.position < width
      · rw [if_pos hLeft, if_pos (show width > r.left from hLeft)]
        rfl
      · have hFirst : Chunking r.data (r.position, width, 0) := .start (by omega) (by omega)
        have hChunks := takeChunks_eq hBits hFirst (Nat.lt_succ_self width)
        have hField := gather_lt_word r.data r.position (Nat.le_of_not_lt hWide)
        rw [if_neg hLeft, if_neg (show ¬ width > r.left from hLeft)]
        change EStateM.bind (Moving.takeChunks (width + 1) width 0) _ r = _
        rw [EStateM.bind, hChunks]
        show EStateM.Result.ok _ _ = _
        rw [Nat.mod_eq_of_lt hField]
        rfl
  steady := .readBits trivial (.inr trivial)

/-- Behind a one bit the zeros are counted. Behind a zero bit the count goes on, if the bit is allowed. -/
theorem countRound {rounds zeros : Nat} {rest : BitReader.Read Nat} (hZeros : zeros ≤ 31)
    (hLast : zeros = 31 → rest = throw .golombTooLong)
    (hRest : zeros < 31 → Tracks (Moving.countZeros rounds (zeros + 1)) rest) :
    Tracks (Moving.countZeros (rounds + 1) zeros)
      (do if ← BitReader.readBit then return zeros else rest) := by
  refine readBit.bind fun bit _ _ _ => ?_
  cases bit with
  | true => exact .value rfl
  | false =>
      simp only [Bool.false_eq_true, if_false]
      rw [add_of_lt (by omega), Moving.ok_bind]
      rcases Nat.lt_or_eq_of_le hZeros with hLess | rfl
      · rw [if_neg (show ¬ 31 < zeros + 1 by omega)]
        exact hRest hLess
      · rw [if_pos (Nat.lt_succ_self 31), hLast rfl]
        exact .refused .golombTooLong _

/-- One round more than zeros are allowed, so that the rounds do not run out before the zeros do. -/
theorem countZeros {allowed zeros : Nat} (h : zeros + allowed = 31) :
    Tracks (Moving.countZeros (allowed + 1) zeros)
      (do return zeros + (← BitReader.readZeros allowed)) := by
  induction allowed generalizing zeros with
  | zero =>
      have hRead : (do return zeros + (← BitReader.readZeros 0))
          = (do if ← BitReader.readBit then return zeros else throw .golombTooLong) := by
        rw [BitReader.readZeros, bind_assoc]
        refine congrArg (BitReader.readBit >>= ·) (funext fun bit => ?_)
        cases bit <;> rfl
      rw [hRead]
      exact countRound (by omega) (fun _ => rfl) fun hLess => by omega
  | succ allowed ih =>
      have hRead : (do return zeros + (← BitReader.readZeros (allowed + 1)))
          = (do if ← BitReader.readBit then return zeros
                else return zeros + 1 + (← BitReader.readZeros allowed)) := by
        rw [BitReader.readZeros, bind_assoc]
        refine congrArg (BitReader.readBit >>= ·) (funext fun bit => ?_)
        cases bit with
        | true => rfl
        | false => simp [Nat.add_assoc, Nat.add_comm 1]
      rw [hRead]
      exact countRound (by omega) (fun hLast => by omega) fun _ => ih (by omega)

/-- An unsigned code moves the cursor alike, also where it breaks off. -/
theorem readUe : Tracks Moving.readUe BitReader.readUe := by
  have hZeros : Tracks (Moving.countZeros 32 0) (BitReader.readZeros 31) := by
    have hCount := @countZeros 31 0 rfl
    simpa only [Nat.zero_add, bind_pure] using hCount
  refine hZeros.bind fun zeros _ _ hRead => ?_
  refine (readBits zeros).bind fun low _ _ hLow => ?_
  exact .value (ueValue_eq (BitReader.le_of_readZeros hRead) (lt_of_readBits hLow))

theorem readSe : Tracks Moving.readSe BitReader.readSe :=
  readUe.bind fun _ _ _ hCode => .value (Build.checked.seValue_eq (BitReader.readUe_eq_ok hCode).1)

/-- Skipping moves the cursor alike, or is refused and leaves it. -/
theorem skipBits (count : Nat) : Tracks (Moving.skipBits count) (BitReader.skipBits count) where
  eq := by
    intro r hCountable
    have hBits := hCountable.bits
    have hWithin : r.position ≤ 8 * r.data.size := hCountable.within
    rw [Moving.skipBits, BitReader.skipBits, Moving.get_bind, mul_of_lt hBits, Moving.ok_bind]
    by_cases hLeft : 8 * r.data.size - r.position < count
    · rw [if_pos hLeft, if_pos (show count > r.left from hLeft)]
      rfl
    · rw [if_neg hLeft, if_neg (show ¬ count > r.left from hLeft), add_of_lt (by omega)]
      rfl
  steady := .skipBits trivial count

/-- Bits that are read one by one move the cursor alike up to the one that is missing. -/
theorem readEach (count value : Nat) :
    Tracks (Moving.readEach count value) (BitReader.readEach count value) := by
  induction count generalizing value with
  | zero => exact .value rfl
  | succ count ih => exact readBit.bind fun bit _ _ _ => ih _

end Tracks

end Tracks

section Calls

/-- Where the caller finds the cursor, unless a hazard has stopped the machine. -/
def leaving {α : Type} : EStateM.Result Halt BitReader α → Machine BitReader
  | .ok _ r => .ok r
  | .error (.fault _) r => .ok r
  | .error (.hazard hazard) _ => stop hazard

open BitReader (Call)

def answer (r : BitReader) : Call → Machine BitReader
  | .bit => leaving (Moving.readBit r)
  | .bits width => leaving (Moving.readBits width r)
  | .ue => leaving (Moving.readUe r)
  | .se => leaving (Moving.readSe r)
  | .skip count => leaving (Moving.skipBits count r)

/-- Answers a run of calls, each of which starts where the one before has left the cursor. -/
def answerAll (r : BitReader) (calls : List Call) : Machine BitReader :=
  calls.foldlM answer r

variable {r : BitReader}

/-- Whether it succeeds or not, a reader that keeps track leaves the same cursor. -/
theorem Tracks.leaving_eq {α : Type} {machine : Moving α} {read : BitReader.Read α}
    (h : Tracks machine read) (hCountable : Countable r) :
    leaving (machine r) = .ok (BitReader.cursor (read r)) := by
  rw [h.eq r hCountable]
  cases read r <;> rfl

/-- Any call on countable data is answered without a hazard, and leaves the cursor of the integer
reader. -/
theorem answer_eq (hCountable : Countable r) (call : Call) : answer r call = .ok (call.after r) := by
  cases call with
  | bit => exact Tracks.readBit.leaving_eq hCountable
  | bits width => exact (Tracks.readBits width).leaving_eq hCountable
  | ue => exact Tracks.readUe.leaving_eq hCountable
  | se => exact Tracks.readSe.leaving_eq hCountable
  | skip count => exact (Tracks.skipBits count).leaving_eq hCountable

/-- No run of calls meets a hazard. -/
theorem answerAll_eq (hCountable : Countable r) (calls : List Call) :
    answerAll r calls = .ok (BitReader.afterAll r calls) := by
  induction calls generalizing r with
  | nil => rfl
  | cons call calls ih =>
      rw [answerAll, List.foldlM_cons, answer_eq hCountable, ok_bind]
      exact ih (hCountable.follows (call.after_follows r))

end Calls

/-- Wherever a run of calls leaves the cursor, it stands on the data. From there, a field is read in chunks as
it is read bit by bit. A field that is wider than a word is refused, and so is one that the data ends in. The
cursor stays in place then. -/
theorem readBits_eq_readEach {data : Bytes} (hBits : 8 * data.length < 2 ^ 64)
    (calls : List BitReader.Call) (width : Nat) :
    ∃ r, answerAll (BitReader.ofBytes data) calls = .ok r ∧
      r = BitReader.afterAll (BitReader.ofBytes data) calls ∧
      r.data = data.toArray ∧ r.position ≤ 8 * data.length ∧
      Moving.readBits width r = ending (BitReader.readBits width r) ∧
      if 32 < width then
        Moving.readBits width r = .error (.fault (.readWidth width)) r ∧
          (Fault.readWidth width).category = .invalidArgument
      else if r.left < width then
        Moving.readBits width r = .error (.fault .endOfData) r
      else
        Moving.readBits width r
            = .ok (Bits.field data r.position width) { r with position := r.position + width } ∧
          Moving.readEach width 0 r
            = .ok (Bits.field data r.position width) { r with position := r.position + width } := by
  obtain ⟨hData, hPosition⟩ := BitReader.within_afterAll data calls
  obtain ⟨r, hAfter⟩ : ∃ r, r = BitReader.afterAll (BitReader.ofBytes data) calls := ⟨_, rfl⟩
  rw [← hAfter] at hData hPosition
  have hStart : Countable (BitReader.ofBytes data) :=
    ⟨Nat.zero_le _, by simpa [BitReader.ofBytes] using hBits⟩
  have hHere : Countable r := hAfter ▸ hStart.follows (BitReader.afterAll_follows _ calls)
  have hRead := (Tracks.readBits width).eq r hHere
  refine ⟨r, hAfter ▸ answerAll_eq hStart calls, hAfter, hData, hPosition, hRead, ?_⟩
  split
  case isTrue hWide =>
    rw [hRead, BitReader.readBits, if_pos hWide]
    exact ⟨rfl, rfl⟩
  case isFalse hWidth =>
    split
    case isTrue hShort =>
      rw [hRead, BitReader.readBits, if_neg hWidth, if_pos hShort]
      rfl
    case isFalse hEnough =>
      obtain ⟨hField, hEach⟩ := @BitReader.readBits_eq_each r width (by omega) (by omega)
      have hList : r.data.toList = data := by rw [hData]
      rw [hList] at hField hEach
      rw [hRead, (Tracks.readEach width 0).eq r hHere, hField, hEach]
      exact ⟨rfl, rfl⟩

/-- The third call is refused, and the fifth fails behind 32 zeros. A field is read across a byte boundary
behind them. -/
def sampleBits : Bytes := [0xA5, 0, 0, 0, 0, 0x7B, 0xE0]

def sampleCalls : List BitReader.Call := [.bit, .bits 2, .bits 40, .se, .ue, .skip 2]

/-- Ten bits from the middle of the data are the same number in both ways. -/
theorem readBits_eq_readEach_sample :
    8 * sampleBits.length < 2 ^ 64 ∧
      answerAll (BitReader.ofBytes sampleBits) sampleCalls = .ok ⟨sampleBits.toArray, 42⟩ ∧
      Moving.readBits 10 ⟨sampleBits.toArray, 42⟩ = .ok 0b1110111110 ⟨sampleBits.toArray, 52⟩ ∧
      Moving.readEach 10 0 ⟨sampleBits.toArray, 42⟩ = .ok 0b1110111110 ⟨sampleBits.toArray, 52⟩ := by
  have hBits : 8 * sampleBits.length < 2 ^ 64 := by decide
  obtain ⟨r, hServed, -, -, -, -, hRead⟩ := readBits_eq_readEach hBits sampleCalls 10
  have hCursor : answerAll (BitReader.ofBytes sampleBits) sampleCalls = .ok ⟨sampleBits.toArray, 42⟩ := by
    decide +kernel
  cases hCursor.symm.trans hServed
  rw [if_neg (by decide), if_neg (by decide)] at hRead
  have hField : Bits.field sampleBits 42 10 = 0b1110111110 := by decide
  rw [hField] at hRead
  exact ⟨hBits, hCursor, hRead⟩

end Cadence.Machine
