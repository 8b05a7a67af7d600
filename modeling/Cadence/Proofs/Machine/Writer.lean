import Mathlib.Tactic.Ring
import Cadence.Bits.Golomb
import Cadence.Proofs.Bits.Field
import Cadence.Proofs.Machine.Words

/-!
Writing bits on a machine. The bits of the next byte are collected in a word of eight bits, and every
operation appends the run of bits that it stands for (`Writes`).
-/

namespace Cadence

namespace Bits

theorem ofNat_zero (width : Nat) : ofNat width 0 = List.replicate width false := by
  induction width with
  | zero => rfl
  | succ width ih => rw [ofNat, ih, Nat.zero_testBit, List.replicate_succ]

theorem ofNat_shiftLeft (width count value : Nat) :
    ofNat (width + count) (value <<< count)
      = ofNat width value ++ List.replicate count false := by
  induction count with
  | zero => simp
  | succ count ih =>
      have hHalf : (value <<< (count + 1)) / 2 = value <<< count := by
        rw [Nat.shiftLeft_eq, Nat.shiftLeft_eq, Nat.pow_succ, ← Nat.mul_assoc]
        exact Nat.mul_div_cancel _ Nat.two_pos
      have hLast : (value <<< (count + 1)).testBit 0 = false := by simp
      rw [← Nat.add_assoc, ofNat_succ_eq_append, hHalf, hLast, ih, List.replicate_succ',
        List.append_assoc]

end Bits

namespace Machine

/-- Bytes that are complete, and the number that the `pending` bits behind them stand for. -/
structure Writer where
  bytes : Bytes := []
  collected : Nat := 0
  pending : Nat := 0

/-- A computation on words that appends bits. -/
abbrev Writing := StateT Writer Machine Unit

def writeBit (bit : Nat) : Writing := fun w => do
  let collected := (← shl 8 w.collected 1) ||| bit % 2
  let pending ← add 32 w.pending 1
  if pending = 8 then return ((), { bytes := w.bytes ++ [UInt8.ofNat collected] })
  return ((), { w with collected, pending })

/-- Writes the last `count` bits of a number in a word of `bits` bits. -/
def writeLow (bits value : Nat) : (count : Nat) → Writing
  | 0 => pure ()
  | count + 1 => do
    writeBit (← shr bits value count)
    writeLow bits value count

def writeBits (value width : Nat) : Writing := do
  assert (width ≤ 32)
  writeLow 32 value width

/-- The number of zeros in front of a number in a word of 64 bits. -/
def leadingZeros (value : Nat) : Nat :=
  if value = 0 then 64 else 63 - value.log2

def writeUe (value : Nat) : Writing := do
  let code ← add 64 value 1
  let width ← sub 64 (leadingZeros code)
  writeBits 0 (← sub width 1)
  writeLow 64 code width

/-- The code of a signed number is computed in 64 bits, and cut off to 32. -/
def writeSe (value : Int) : Writing := do
  let code ← if 0 < value then fitSigned 64 ((← fitSigned 64 (2 * value)) - 1)
    else fitSigned 64 (-2 * value)
  writeUe (code % 2 ^ 32).toNat

def onlyIf (condition : Prop) [Decidable condition] (write : Writing) : Writing :=
  if condition then write else pure ()

def repeatedly (write : Writing) : (count : Nat) → Writing
  | 0 => pure ()
  | count + 1 => do
    write
    repeatedly write count

def alignRound (w : Writer) : Machine (Writer ⊕ Writer) := do
  if w.pending = 0 then return .inr w
  let ((), next) ← writeBit 0 w
  return .inl next

/-- The bytes written, the last one filled up with zero bits. -/
def finish (w : Writer) : Machine Bytes := do
  return (← loop alignRound 8 w).bytes

namespace Writer

/-- All bits written so far. -/
def bits (w : Writer) : List Bool :=
  Bits.ofBytes w.bytes ++ Bits.ofNat w.pending w.collected

/-- Fewer than eight bits are pending, and nothing stands above them. -/
structure Valid (w : Writer) : Prop where
  pending : w.pending < 8
  collected : w.collected < 2 ^ w.pending

theorem Valid.whole (bytes : Bytes) : Valid { bytes } :=
  ⟨Nat.succ_pos 7, Nat.one_pos⟩

end Writer

section Bit

variable {w : Writer}

/-- The bits that are collected, with one more behind them, make up a number of as many bits. -/
theorem lt_of_valid (h : w.Valid) (bit : Nat) :
    2 * w.collected + bit % 2 < 2 ^ (w.pending + 1) := by
  have hCollected := h.collected
  rw [Nat.pow_succ]
  omega

/-- The eighth bit of a byte completes it. -/
theorem writeBit_eq (h : w.Valid) (bit : Nat) :
    writeBit bit w
      = if w.pending + 1 = 8 then
          .ok ((), { bytes := w.bytes ++ [UInt8.ofNat (2 * w.collected + bit % 2)] })
        else .ok ((), { w with
          collected := 2 * w.collected + bit % 2, pending := w.pending + 1 }) := by
  have hPending := h.pending
  have hLess := lt_of_valid h bit
  have hPower : 2 ^ (w.pending + 1) ≤ 2 ^ 8 := Nat.pow_le_pow_right Nat.two_pos hPending
  have hBit : bit % 2 < 2 ^ 1 := Nat.mod_lt _ (by decide)
  have hValue : (w.collected <<< 1) ||| bit % 2 = 2 * w.collected + bit % 2 := by
    rw [← Nat.shiftLeft_add_eq_or_of_lt hBit, Nat.shiftLeft_eq]
    omega
  rw [writeBit, shl_of_lt (by decide) (by omega), ok_bind, hValue, add_of_lt (by omega)]
  rfl

end Bit

/-- A computation appends a run of bits, whatever has been written before. -/
def Writes (write : Writing) (run : List Bool) : Prop :=
  ∀ w : Writer, w.Valid → ∃ next, write w = .ok ((), next) ∧ next.Valid ∧ next.bits = w.bits ++ run

namespace Writes

variable {write next : Writing} {run tail : List Bool}

theorem pure : Writes (pure ()) [] :=
  fun w hValid => ⟨w, rfl, hValid, (List.append_nil _).symm⟩

/-- One writer behind another writes their bits behind each other. -/
theorem bind (first : Writes write run) (later : Writes next tail) :
    Writes (write >>= fun _ => next) (run ++ tail) := by
  intro w hValid
  obtain ⟨middle, hMiddle, hValid, hBits⟩ := first w hValid
  obtain ⟨last, hLast, hValid, hTail⟩ := later middle hValid
  refine ⟨last, ?_, hValid, by rw [hTail, hBits, List.append_assoc]⟩
  change (write w >>= fun pair => next pair.2) = _
  rw [hMiddle]
  exact hLast

/-- A value is computed on words before the bits are written. -/
theorem computed {α : Type} {machine : Machine α} {a : α} {write : α → Writing}
    (h : machine = .ok a) (first : Writes (write a) run) : Writes (liftM machine >>= write) run := by
  subst h
  exact first

theorem onlyIf {condition : Prop} {_ : Decidable condition} (h : Writes write run) :
    Writes (onlyIf condition write) (if condition then run else []) := by
  unfold Machine.onlyIf
  split
  · exact h
  · exact pure

/-- A writer that is repeated writes its bits as often. -/
theorem repeatedly (h : Writes write run) (count : Nat) :
    Writes (repeatedly write count) (List.replicate count run).flatten := by
  induction count with
  | zero => exact pure
  | succ count ih => exact h.bind ih

/-- A bit goes behind those that are written, and every eighth one completes a byte. -/
theorem writeBit (bit : Nat) : Writes (writeBit bit) [bit.testBit 0] := by
  intro w hValid
  have hLess := lt_of_valid hValid bit
  have hRun : Bits.ofNat (w.pending + 1) (2 * w.collected + bit % 2)
      = Bits.ofNat w.pending w.collected ++ [bit.testBit 0] := by
    have hHalf : (2 * w.collected + bit % 2) / 2 = w.collected := by omega
    have hParity : (2 * w.collected + bit % 2) % 2 = bit % 2 := by omega
    rw [Bits.ofNat_succ_eq_append, hHalf, Nat.testBit_zero, Nat.testBit_zero, hParity]
  rw [writeBit_eq hValid]
  by_cases hFull : w.pending + 1 = 8
  · rw [if_pos hFull]
    rw [hFull] at hRun hLess
    have hByte : Bits.ofByte (UInt8.ofNat (2 * w.collected + bit % 2))
        = Bits.ofNat w.pending w.collected ++ [bit.testBit 0] := by
      rw [Bits.ofByte, UInt8.toNat_ofNat_of_lt' hLess, hRun]
    refine ⟨_, rfl, .whole _, ?_⟩
    simp only [Writer.bits, Bits.ofBytes_append, Bits.ofBytes_cons, Bits.ofBytes_nil, hByte,
      Bits.ofNat, List.append_nil, List.append_assoc]
  · have := hValid.pending
    rw [if_neg hFull]
    refine ⟨_, rfl, ⟨by dsimp only; omega, hLess⟩, ?_⟩
    simp only [Writer.bits, hRun, List.append_assoc]

/-- The low bits of a number are written from the highest one down, by induction over their
number. -/
theorem writeLow {bits count : Nat} (value : Nat) (h : count ≤ bits) :
    Writes (writeLow bits value count) (Bits.ofNat count value) := by
  induction count with
  | zero => exact pure
  | succ count ih =>
      have hBit : (value >>> count).testBit 0 = value.testBit count := by
        rw [Nat.testBit_shiftRight, Nat.add_zero]
      rw [Bits.ofNat, ← hBit]
      exact computed (shr_of_lt h) ((writeBit _).bind (ih (Nat.le_of_succ_le h)))

/-- A number is written in as many bits as it is given. -/
theorem writeBits {width : Nat} (value : Nat) (h : width ≤ 32) :
    Writes (writeBits value width) (Bits.ofNat width value) :=
  computed (assert_of h) (writeLow value h)

/-- Code words are written for all 32-bit numbers. -/
theorem writeUe {value : Nat} (h : value < 2 ^ 32) : Writes (writeUe value) (Bits.ue value) := by
  have hLog : (value + 1).log2 ≤ 32 :=
    Nat.le_of_lt_succ ((Nat.log2_lt (Nat.succ_ne_zero value)).mpr (by omega))
  have hZeros : leadingZeros (value + 1) = 63 - (value + 1).log2 := if_neg (Nat.succ_ne_zero value)
  have hWidth : 64 - leadingZeros (value + 1) = (value + 1).log2 + 1 := by omega
  rw [Bits.ue, ← Bits.ofNat_zero]
  refine computed (add_of_lt (by omega)) (computed (sub_of_le (by omega)) ?_)
  rw [hWidth]
  exact computed (sub_of_le (Nat.le_add_left _ _))
    ((writeBits 0 hLog).bind (writeLow (value + 1) (by omega)))

/-- A signed number is written as the code of its mapped value. -/
theorem writeSe (value : Int32) : Writes (writeSe value.toInt) (Bits.se value) := by
  have hFrom : -2 ^ 31 ≤ value.toInt := value.minValue_le_toInt
  have hTill : value.toInt < 2 ^ 31 := by
    have hMax : Int32.maxValue.toInt = 2 ^ 31 - 1 := rfl
    have := value.toInt_le
    omega
  have hPos : value > 0 ↔ 0 < value.toInt := Int32.lt_iff_toInt_lt
  rw [Bits.se]
  unfold Machine.writeSe Bits.seCode
  by_cases hSign : 0 < value.toInt
  · rw [if_pos hSign, if_pos (hPos.mpr hSign)]
    refine computed (fitSigned_of_mem (by omega) (by omega)) ?_
    refine computed (fitSigned_of_mem (by omega) (by omega)) ?_
    have hCode : ((2 * value.toInt - 1) % 2 ^ 32).toNat
        = (UInt32.ofNat (2 * value.toInt.natAbs - 1)).toNat := by
      rw [UInt32.toNat_ofNat']
      omega
    dsimp only
    rw [hCode]
    exact writeUe (UInt32.toNat_lt _)
  · rw [if_neg hSign, if_neg (mt hPos.mp hSign)]
    refine computed (fitSigned_of_mem (by omega) (by omega)) ?_
    have hCode : ((-2 * value.toInt) % 2 ^ 32).toNat
        = (UInt32.ofNat (2 * value.toInt.natAbs)).toNat := by
      rw [UInt32.toNat_ofNat']
      omega
    dsimp only
    rw [hCode]
    exact writeUe (UInt32.toNat_lt _)

end Writes

section Finish

variable {w : Writer}

/-- The writer with its last byte filled up. -/
def Writer.aligned (w : Writer) : Writer :=
  if w.pending = 0 then w
  else { bytes := w.bytes ++ [UInt8.ofNat (w.collected <<< (8 - w.pending))] }

/-- Zeros are written until the byte is full. -/
theorem rounds_alignRound (h : w.Valid) :
    Rounds alignRound Writer.Valid (fun w => (8 - w.pending) % 8) (fun w => .ok w.aligned) w := by
  have hPending := h.pending
  have hBit := writeBit_eq h 0
  simp only [Nat.zero_mod, Nat.add_zero] at hBit
  by_cases hNone : w.pending = 0
  · have hRound : alignRound w = .ok (.inr w) := by
      rw [alignRound, if_pos hNone]
      rfl
    exact .done hRound (by rw [Writer.aligned, if_pos hNone])
  · have hRound (next : Writer) (hNext : writeBit 0 w = .ok ((), next)) :
        alignRound w = .ok (.inl next) := by
      rw [alignRound, if_neg hNone, hNext]
      rfl
    by_cases hFull : w.pending + 1 = 8
    · have hLast : 8 - w.pending = 1 := by omega
      rw [if_pos hFull] at hBit
      refine .next (hRound _ hBit) (.whole _) ?_ ?_
      · dsimp only
        omega
      · rw [Writer.aligned, Writer.aligned, if_pos rfl, if_neg hNone, hLast, Nat.shiftLeft_eq,
          Nat.pow_one, Nat.mul_comm]
    · have hLess := lt_of_valid h 0
      have hShift : w.collected <<< (8 - w.pending)
          = (2 * w.collected) <<< (8 - (w.pending + 1)) := by
        have hMore : 8 - w.pending = 8 - (w.pending + 1) + 1 := by omega
        rw [hMore, Nat.shiftLeft_eq, Nat.shiftLeft_eq, Nat.pow_succ]
        ring
      rw [if_neg hFull] at hBit
      refine .next (hRound _ hBit) ⟨by dsimp only; omega, by simpa using hLess⟩ ?_ ?_
      · dsimp only
        omega
      · rw [Writer.aligned, Writer.aligned, if_neg (Nat.succ_ne_zero _), if_neg hNone, hShift]

/-- The last byte holds the pending bits and zeros behind them. -/
theorem ofByte_filled (h : w.Valid) :
    Bits.ofByte (UInt8.ofNat (w.collected <<< (8 - w.pending)))
      = Bits.ofNat w.pending w.collected ++ List.replicate (8 - w.pending) false := by
  have hPending := h.pending
  have hWidth : w.pending + (8 - w.pending) = 8 := by omega
  have hLess : w.collected <<< (8 - w.pending) < 2 ^ 8 :=
    calc w.collected <<< (8 - w.pending) = w.collected * 2 ^ (8 - w.pending) := Nat.shiftLeft_eq _ _
      _ < 2 ^ w.pending * 2 ^ (8 - w.pending) :=
          Nat.mul_lt_mul_of_pos_right h.collected (Nat.two_pow_pos _)
      _ = 2 ^ 8 := by rw [← Nat.pow_add, hWidth]
  rw [← Bits.ofNat_shiftLeft, hWidth, Bits.ofByte, UInt8.toNat_ofNat_of_lt' hLess]

/-- The bytes taken out hold the bits written and less than a byte of zeros behind them. -/
theorem finish_eq (h : w.Valid) :
    ∃ bytes padding, finish w = .ok bytes ∧ padding < 8 ∧
      Bits.ofBytes bytes = w.bits ++ List.replicate padding false := by
  have hPending := h.pending
  have hLoop : loop alignRound 8 w = .ok w.aligned :=
    loop_eq (fun w hValid => rounds_alignRound hValid) h (by omega)
  have hFinish : finish w = .ok w.aligned.bytes := by
    rw [finish, hLoop]
    rfl
  by_cases hNone : w.pending = 0
  · refine ⟨_, 0, hFinish, by decide, ?_⟩
    rw [Writer.aligned, if_pos hNone, Writer.bits, hNone]
    simp [Bits.ofNat]
  · refine ⟨_, 8 - w.pending, hFinish, by omega, ?_⟩
    rw [Writer.aligned, if_neg hNone, Writer.bits]
    simp only [Bits.ofBytes_append, Bits.ofBytes_cons, Bits.ofBytes_nil, ofByte_filled h,
      List.append_nil, List.append_assoc]

end Finish

end Machine

end Cadence
