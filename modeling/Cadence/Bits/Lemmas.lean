import Mathlib.Algebra.Ring.Nat
import Cadence.Bits.Basic

/-!
Runs of bits and the numbers they stand for.
-/

namespace Cadence.Bits

private theorem foldl_value (bits : List Bool) (start : Nat) :
    bits.foldl (fun value bit => 2 * value + bit.toNat) start
      = start * 2 ^ bits.length + toNat bits := by
  induction bits generalizing start with
  | nil => simp [toNat]
  | cons bit bits ih =>
      have hTail : toNat (bit :: bits) = bit.toNat * 2 ^ bits.length + toNat bits := by
        show bits.foldl (fun value bit => 2 * value + bit.toNat) (2 * 0 + bit.toNat) = _
        rw [ih]; simp
      rw [List.foldl_cons, ih, hTail, List.length_cons, Nat.pow_succ, Nat.add_mul, Nat.add_assoc,
        Nat.mul_comm 2 start, Nat.mul_assoc, Nat.mul_comm 2]

/-- The first bit weighs two to the number of bits that follow it. -/
theorem toNat_cons (bit : Bool) (bits : List Bool) :
    toNat (bit :: bits) = bit.toNat * 2 ^ bits.length + toNat bits := by
  show bits.foldl (fun value bit => 2 * value + bit.toNat) (2 * 0 + bit.toNat) = _
  rw [foldl_value]; simp

/-- Bits put in front are shifted up by the number of bits behind them. -/
theorem toNat_append (front back : List Bool) :
    toNat (front ++ back) = toNat front * 2 ^ back.length + toNat back := by
  show (front ++ back).foldl (fun value bit => 2 * value + bit.toNat) 0 = _
  rw [List.foldl_append, foldl_value back]
  rfl

theorem toNat_lt (bits : List Bool) : toNat bits < 2 ^ bits.length := by
  induction bits with
  | nil => simp
  | cons bit bits ih =>
      rw [toNat_cons, List.length_cons, Nat.pow_succ]
      cases bit <;> simp <;> omega

/-- Writing a number in `width` bits keeps it modulo two to the width. -/
theorem toNat_ofNat (width value : Nat) : toNat (ofNat width value) = value % 2 ^ width := by
  induction width with
  | zero => simp [ofNat, Nat.mod_one]
  | succ width ih =>
      rw [ofNat, toNat_cons, length_ofNat, ih, Nat.mod_pow_succ, Nat.testBit_eq_decide_div_mod_eq]
      rcases Nat.mod_two_eq_zero_or_one (value / 2 ^ width) with h | h <;> simp [h, Nat.add_comm]

/-- A run of bits is recovered from its length and its number. -/
theorem ofNat_toNat (bits : List Bool) : ofNat bits.length (toNat bits) = bits := by
  suffices h : ∀ high, ofNat bits.length (high * 2 ^ bits.length + toNat bits) = bits by
    simpa using h 0
  induction bits with
  | nil => intro high; rfl
  | cons bit bits ih =>
      intro high
      have hLt := toNat_lt bits
      have hSplit : high * 2 ^ (bits.length + 1) + (bit.toNat * 2 ^ bits.length + toNat bits)
          = (2 * high + bit.toNat) * 2 ^ bits.length + toNat bits := by
        rw [Nat.pow_succ, Nat.add_mul, Nat.add_assoc, Nat.mul_comm 2 high, Nat.mul_assoc,
          Nat.mul_comm 2]
      rw [toNat_cons, List.length_cons, ofNat, hSplit, ih]
      congr 1
      rw [Nat.testBit_eq_decide_div_mod_eq, Nat.mul_comm,
        Nat.mul_add_div (Nat.two_pow_pos _), Nat.div_eq_of_lt hLt]
      cases bit <;> simp

end Cadence.Bits
