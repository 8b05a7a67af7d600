import Mathlib.Algebra.BigOperators.Ring.List
import Mathlib.Algebra.Order.BigOperators.Group.List
import Mathlib.Algebra.Order.Field.Basic
import Mathlib.Algebra.Order.Ring.Rat
import Mathlib.Tactic.NormNum
import Mathlib.Tactic.Ring
import Cadence.Proofs.Meter.Window

/-!
The time that the window of a bit rate meter covers: from the call in front of the oldest one in it up to the
last call. Every step is cut off to whole milliseconds before the steps are added up, so that the window can
miss up to a millisecond per step. How much it misses is what was cut off (`windowMs_covers_iff`).
-/

namespace Cadence

namespace Bitrate

variable {calls : List Call} {first last old : Call}

theorem isChain_iff_steps {R : Call → Call → Prop} :
    calls.IsChain R ↔ ∀ step ∈ steps calls, R step.1 step.2 := by
  induction calls with
  | nil => simp [steps]
  | cons first calls ih =>
      cases calls with
      | nil => simp [steps]
      | cons second calls =>
          have hSteps : steps (first :: second :: calls) = (first, second) :: steps (second :: calls) := rfl
          rw [List.isChain_cons_cons, ih, hSteps, List.forall_mem_cons]

theorem steps_drop (calls : List Call) (count : Nat) : steps (calls.drop count) = (steps calls).drop count := by
  rw [steps, steps, List.zip, List.drop_zipWith, List.tail_drop, List.drop_tail]

/-- The times between the calls add up to the time from the first one to the last one. -/
theorem sum_elapsed_steps (hFirst : calls.head? = some first) (hLast : calls.getLast? = some last) :
    ((steps calls).map elapsed).sum = last.now.toInt - first.now.toInt := by
  induction calls generalizing first with
  | nil => cases hFirst
  | cons call calls ih =>
      obtain rfl := Option.some.inj hFirst
      cases calls with
      | nil =>
          obtain rfl := Option.some.inj hLast
          exact (sub_self _).symm
      | cons second calls =>
          rw [List.getLast?_cons_cons] at hLast
          have hSteps : steps (call :: second :: calls) = (call, second) :: steps (second :: calls) := rfl
          rw [hSteps, List.map_cons, List.sum_cons, ih rfl hLast, elapsed]
          ring

/-- The place of the call in front of the oldest one in the window. -/
def oldestPlace (calls : List Call) : Nat :=
  calls.length - 1 - min (calls.length - 1) window

/-- The steps that are counted are those from the oldest call in the window on. -/
theorem counted_eq_steps (calls : List Call) : counted calls = steps (calls.drop (oldestPlace calls)) := by
  have hPlace : oldestPlace calls = (steps calls).length - window := by
    rw [length_steps, oldestPlace]
    omega
  rw [steps_drop, counted, List.rtake, hPlace]

/-- The time that the window covers. -/
theorem sum_elapsed_counted (hOld : calls[oldestPlace calls]? = some old)
    (hLast : calls.getLast? = some last) :
    ((counted calls).map elapsed).sum = last.now.toInt - old.now.toInt := by
  have hPlace : oldestPlace calls < calls.length := (List.getElem?_eq_some_iff.mp hOld).1
  rw [counted_eq_steps]
  apply sum_elapsed_steps
  · rw [List.head?_drop, hOld]
  · rw [List.getLast?_drop, if_neg (by omega), hLast]

/-- The microseconds that are cut off from the steps in the window. -/
def cutOff (calls : List Call) : Int :=
  ((counted calls).map fun step => elapsed step % 1000).sum

/-- Less than a millisecond is cut off from each step. -/
theorem cutOff_bounds (calls : List Call) :
    0 ≤ cutOff calls ∧ cutOff calls ≤ 999 * min (calls.length - 1) window := by
  have hBounds : ∀ step : Call × Call, 0 ≤ elapsed step % 1000 ∧ elapsed step % 1000 ≤ 999 :=
    fun step => by omega
  constructor
  · refine List.sum_nonneg fun part hPart => ?_
    obtain ⟨step, -, rfl⟩ := List.mem_map.mp hPart
    exact (hBounds step).1
  · have hSum := List.sum_le_card_nsmul ((counted calls).map fun step => elapsed step % 1000) 999
      fun part hPart => by
        obtain ⟨step, -, rfl⟩ := List.mem_map.mp hPart
        exact (hBounds step).2
    rw [List.length_map, length_counted, nsmul_eq_mul, mul_comm] at hSum
    exact_mod_cast hSum

/-- The window's milliseconds and what was cut off make up the time that it covers. -/
theorem windowMs_add_cutOff (hOrder : calls.IsChain (·.now ≤ ·.now))
    (hTimes : ∀ step ∈ steps calls, Ticks.InRange (elapsed step))
    (hOld : calls[oldestPlace calls]? = some old) (hLast : calls.getLast? = some last) :
    1000 * (recordAll calls).windowMs.toInt + cutOff calls = last.now.toInt - old.now.toInt := by
  have hStep (step : Call × Call) (hMember : step ∈ counted calls) :
      1000 * (elapsed step).tdiv 1000 + elapsed step % 1000 = elapsed step := by
    have hForward : step.1.now ≤ step.2.now :=
      isChain_iff_steps.mp hOrder step (mem_steps_of_mem_counted hMember)
    have hElapsed : 0 ≤ elapsed step := Int.sub_nonneg_of_le (Int64.le_iff_toInt_le.mp hForward)
    rw [Int.tdiv_eq_ediv_of_nonneg hElapsed, Int.mul_ediv_add_emod]
  rw [← sum_elapsed_counted hOld hLast, cutOff,
    windowMs_eq fun step hStep => hTimes step (mem_steps_of_mem_counted hStep),
    ← List.sum_map_mul_left, ← List.sum_map_add, List.map_congr_left hStep]

/-- While calls come in the order of their times, the window's milliseconds never exceed the time that it
covers. They are off by less than a millisecond exactly if the microseconds that were cut off from its steps
do not make up one. -/
theorem windowMs_covers_iff (hOrder : calls.IsChain (·.now ≤ ·.now))
    (hTimes : ∀ step ∈ steps calls, Ticks.InRange (elapsed step))
    (hOld : calls[oldestPlace calls]? = some old) (hLast : calls.getLast? = some last) :
    (|((recordAll calls).windowMs.toInt : ℚ) - ((last.now.toInt - old.now.toInt : Int) : ℚ) / 1000| < 1
      ↔ cutOff calls < 1000) ∧
    1000 * (recordAll calls).windowMs.toInt ≤ last.now.toInt - old.now.toInt ∧
    last.now.toInt - old.now.toInt
      ≤ 1000 * (recordAll calls).windowMs.toInt + 999 * min (calls.length - 1) window := by
  obtain ⟨hFrom, hTill⟩ := cutOff_bounds calls
  have hSum := windowMs_add_cutOff hOrder hTimes hOld hLast
  refine ⟨?_, by omega, by omega⟩
  have hMissed : ((recordAll calls).windowMs.toInt : ℚ) - ((last.now.toInt - old.now.toInt : Int) : ℚ) / 1000
      = -((cutOff calls : ℚ) / 1000) := by
    rw [← hSum]
    push_cast
    ring
  have hPositive : 0 ≤ (cutOff calls : ℚ) / 1000 :=
    div_nonneg (Int.cast_nonneg hFrom) (by norm_num)
  rw [hMissed, abs_neg, abs_of_nonneg hPositive, div_lt_one (by norm_num)]
  exact_mod_cast Iff.rfl

/-- Calls of a thousand bytes, each `step` microseconds behind the one before it. -/
def evenCalls (count step : Nat) : List Call :=
  (List.range count).map fun place => ⟨1000, Int64.ofNat (step * place)⟩

/-- Three steps of 1.3 milliseconds are taken for three milliseconds. -/
theorem windowMs_covers_evenCalls :
    |((recordAll (evenCalls 4 1300)).windowMs.toInt : ℚ) - ((3900 - 0 : Int) : ℚ) / 1000| < 1 := by
  have hCovers := @windowMs_covers_iff (evenCalls 4 1300) ⟨1000, 3900⟩ ⟨1000, 0⟩
    (by decide) (by decide) (by decide) (by decide)
  exact hCovers.1.mpr (by decide)

/-- A window of two hundred steps of half a millisecond covers a tenth of a second, and its time is zero. -/
theorem windowMs_evenCalls_short :
    (evenCalls 201 500).IsChain (·.now ≤ ·.now) ∧
    (∀ step ∈ steps (evenCalls 201 500), Ticks.InRange (elapsed step)) ∧
    (evenCalls 201 500)[oldestPlace (evenCalls 201 500)]? = some ⟨1000, 0⟩ ∧
    (evenCalls 201 500).getLast? = some ⟨1000, 100000⟩ ∧
    (recordAll (evenCalls 201 500)).windowMs = 0 ∧
    ¬ |((recordAll (evenCalls 201 500)).windowMs.toInt : ℚ) - ((100000 - 0 : Int) : ℚ) / 1000| < 1 := by
  have hTimes : ∀ step ∈ steps (evenCalls 201 500), Ticks.InRange (elapsed step) := by decide +kernel
  have hZero : (recordAll (evenCalls 201 500)).windowMs = 0 := by
    refine Int64.toInt_inj.mp ((windowMs_eq fun step hStep => ?_).trans (by decide +kernel))
    exact hTimes step (mem_steps_of_mem_counted hStep)
  refine ⟨by decide +kernel, hTimes, by decide +kernel, by decide +kernel, hZero, ?_⟩
  rw [hZero, Int64.toInt_zero]
  norm_num

end Bitrate

end Cadence
