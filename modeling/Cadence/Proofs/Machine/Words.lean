import Mathlib.Algebra.Ring.Int.Defs
import Mathlib.Algebra.Ring.Nat
import Cadence.Bits.Basic
import Cadence.Fault
import Cadence.Proofs.Ticks

/-!
Computing with the words of a machine. Numbers have a width, data has an end and loops have a number of
rounds, and whatever does not keep to these stops the computation (`Hazard`). A computation that is shown
to give a value, or a fault that is reported in the ordinary way, has met none of this.
-/

namespace Cadence

/-- What stops a machine in the middle of a computation. -/
inductive Hazard
  /-- A result does not fit its word. -/
  | overflow
  /-- A word is shifted by its width, or further. -/
  | shift
  | division
  /-- The data ends before the place that is asked for. -/
  | range
  /-- What is taken for granted does not hold. -/
  | assertion
  /-- A loop goes on after the rounds that it was given. -/
  | endless
  deriving DecidableEq, Repr

/-- Why a computation gives no value. -/
inductive Halt
  | fault (fault : Fault)
  | hazard (hazard : Hazard)
  deriving DecidableEq, Repr

/-- A computation on words, every operation of which is checked. -/
abbrev Machine (α : Type) := Except Halt α

namespace Machine

variable {α β σ : Type}

def stop (hazard : Hazard) : Machine α :=
  .error (.hazard hazard)

/-- A computation that is known to meet no hazard. -/
def ofExcept (result : Except Fault α) : Machine α :=
  result.mapError .fault

def assert (condition : Prop) [Decidable condition] : Machine Unit :=
  if condition then .ok () else stop .assertion

section Words

/-- A number in a word of `bits` bits. -/
def fit (bits value : Nat) : Machine Nat :=
  if value < 2 ^ bits then .ok value else stop .overflow

def add (bits a b : Nat) : Machine Nat :=
  fit bits (a + b)

def mul (bits a b : Nat) : Machine Nat :=
  fit bits (a * b)

def sub (a b : Nat) : Machine Nat :=
  if b ≤ a then .ok (a - b) else stop .overflow

/-- Bits that are shifted out are dropped. -/
def shl (bits a count : Nat) : Machine Nat :=
  if count < bits then .ok ((a <<< count) % 2 ^ bits) else stop .shift

def shr (bits a count : Nat) : Machine Nat :=
  if count < bits then .ok (a >>> count) else stop .shift

def rem (a b : Nat) : Machine Nat :=
  if b = 0 then stop .division else .ok (a % b)

/-- An integer in a word of `bits` bits, one of which is the sign. -/
def fitSigned (bits : Nat) (value : Int) : Machine Int :=
  if -2 ^ (bits - 1) ≤ value ∧ value < 2 ^ (bits - 1) then .ok value else stop .overflow

/-- The one quotient that has no word is that of the least number and minus one. -/
def divide (a b : Ticks) : Machine Ticks :=
  if b = 0 then stop .division
  else if a = Int64.minValue ∧ b = -1 then stop .overflow
  else .ok (a / b)

end Words

section Data

def index (data : Bytes) (place : Nat) : Machine UInt8 :=
  match data[place]? with
  | some byte => .ok byte
  | none => stop .range

/-- The bytes from `start` up to `stop`. -/
def slice (data : Bytes) (start stop : Nat) : Machine Bytes :=
  if start ≤ stop ∧ stop ≤ data.length then .ok ((data.drop start).take (stop - start))
  else Machine.stop .range

end Data

/-- Repeats `round` on a state until it gives a result. -/
def loop (round : σ → Machine (σ ⊕ β)) : (rounds : Nat) → (state : σ) → Machine β
  | 0, _ => stop .endless
  | rounds + 1, state => do
    match ← round state with
    | .inl next => loop round rounds next
    | .inr result => return result

theorem ok_bind (a : α) (next : α → Machine β) : ((Except.ok a : Machine α) >>= next) = next a := rfl

theorem ofExcept_ok (a : α) : ofExcept (.ok a) = .ok a := rfl

theorem ofExcept_bind (first : Except Fault α) (next : α → Except Fault β) :
    ofExcept (first >>= next) = ofExcept first >>= fun a => ofExcept (next a) := by
  cases first <;> rfl

theorem assert_of {condition : Prop} [Decidable condition] (h : condition) :
    assert condition = .ok () :=
  if_pos h

theorem fit_of_lt {bits value : Nat} (h : value < 2 ^ bits) : fit bits value = .ok value :=
  if_pos h

theorem add_of_lt {bits a b : Nat} (h : a + b < 2 ^ bits) : add bits a b = .ok (a + b) :=
  if_pos h

theorem mul_of_lt {bits a b : Nat} (h : a * b < 2 ^ bits) : mul bits a b = .ok (a * b) :=
  if_pos h

theorem sub_of_le {a b : Nat} (h : b ≤ a) : sub a b = .ok (a - b) :=
  if_pos h

/-- No bit is lost if the product fits. -/
theorem shl_of_lt {bits a count : Nat} (hCount : count < bits) (h : a * 2 ^ count < 2 ^ bits) :
    shl bits a count = .ok (a <<< count) := by
  rw [shl, if_pos hCount, Nat.shiftLeft_eq, Nat.mod_eq_of_lt h]

example : shl 32 1 32 = stop .shift := rfl

/-- Bits put behind a number make it longer by their count. -/
theorem or_lt {value low count bits : Nat} (hValue : value < 2 ^ bits) (hLow : low < 2 ^ count) :
    (value <<< count) ||| low < 2 ^ (bits + count) := by
  rw [← Nat.shiftLeft_add_eq_or_of_lt hLow, Nat.shiftLeft_eq, Nat.pow_add]
  calc value * 2 ^ count + low < value * 2 ^ count + 2 ^ count := Nat.add_lt_add_left hLow _
    _ = (value + 1) * 2 ^ count := (Nat.succ_mul _ _).symm
    _ ≤ 2 ^ bits * 2 ^ count := Nat.mul_le_mul_right _ hValue

theorem shr_of_lt {bits a count : Nat} (h : count < bits) : shr bits a count = .ok (a >>> count) :=
  if_pos h

theorem rem_of_pos {a b : Nat} (h : 0 < b) : rem a b = .ok (a % b) :=
  if_neg (Nat.pos_iff_ne_zero.mp h)

theorem fitSigned_of_mem {bits : Nat} {value : Int} (hFrom : -2 ^ (bits - 1) ≤ value)
    (hTill : value < 2 ^ (bits - 1)) : fitSigned bits value = .ok value :=
  if_pos ⟨hFrom, hTill⟩

theorem fitSigned_of_inRange {value : Int} (h : Ticks.InRange value) : fitSigned 64 value = .ok value :=
  fitSigned_of_mem h.1 (Int.lt_of_le_of_lt h.2 (by decide))

/-- Dividing by a positive number meets neither of the hazards of a division. -/
theorem divide_of_pos {a b : Ticks} (h : 0 < b) : divide a b = .ok (a / b) := by
  rw [divide, if_neg (by rintro rfl; exact absurd h (by decide)),
    if_neg (by rintro ⟨-, rfl⟩; exact absurd h (by decide))]

theorem getElem?_of_drop {data rest : Bytes} {place : Nat} {byte : UInt8}
    (h : data.drop place = byte :: rest) : data[place]? = some byte := by
  rw [← Nat.add_zero place, ← List.getElem?_drop, h]
  rfl

theorem index_of_drop {data rest : Bytes} {place : Nat} {byte : UInt8}
    (h : data.drop place = byte :: rest) : index data place = .ok byte := by
  rw [index, getElem?_of_drop h]

/-- A range within the data is cut out without a hazard. -/
theorem slice_of_le {data : Bytes} {start stop : Nat} (h : start ≤ stop) (hStop : stop ≤ data.length) :
    slice data start stop = .ok ((data.drop start).take (stop - start)) :=
  if_pos ⟨h, hStop⟩

/-- One round of a loop from a state: the loop goes on to a state from which it gives the same and which
is closer to the end, or it ends with what it is to give. -/
inductive Rounds (round : σ → Machine (σ ⊕ β)) (holds : σ → Prop) (left : σ → Nat)
    (value : σ → Machine β) (state : σ) : Prop
  | next {next : σ} (hRound : round state = .ok (.inl next)) (hHolds : holds next)
      (hLess : left next < left state) (hValue : value next = value state) :
      Rounds round holds left value state
  | done {result : β} (hRound : round state = .ok (.inr result)) (hValue : value state = .ok result) :
      Rounds round holds left value state
  | failed {halt : Halt} (hRound : round state = .error halt) (hValue : value state = .error halt) :
      Rounds round holds left value state

/-- A loop gives what each of its rounds keeps to, and its rounds are enough. -/
theorem loop_eq {round : σ → Machine (σ ⊕ β)} {holds : σ → Prop} {left : σ → Nat}
    {value : σ → Machine β} (hRounds : ∀ state, holds state → Rounds round holds left value state)
    {rounds : Nat} {state : σ} (h : holds state) (hEnough : left state < rounds) :
    loop round rounds state = value state := by
  induction rounds generalizing state with
  | zero => exact absurd hEnough (Nat.not_lt_zero _)
  | succ rounds ih =>
      rw [loop]
      cases hRounds state h with
      | next hRound hHolds hLess hValue =>
          rw [hRound, ← hValue]
          exact ih hHolds (by omega)
      | done hRound hValue =>
          rw [hRound, hValue]
          rfl
      | failed hRound hValue =>
          rw [hRound, hValue]
          rfl

end Machine

end Cadence
