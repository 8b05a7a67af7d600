import Cadence.Proofs.Filter.Accounting
import Cadence.Proofs.Filter.Delivery
import Cadence.Proofs.Filter.Spacing
import Cadence.Proofs.SkipFrame.Size

/-!
What holds between any two calls, faults included, when skipped pictures can be written: those that are
pending are the rest of those that were scheduled, and the adjustment counts them together with those
that were given out since it was reset (`Orderly`).
-/

namespace Cadence

namespace Filter

def afterCalls (f : Filter) : List Call → Filter
  | [] => f
  | call :: calls => (f.turn call).after.afterCalls calls

/-- Any number of calls leave the filter between two calls, with the same set-up. -/
theorem afterCalls_frame {f : Filter} (h : f.Settled) (calls : List Call) :
    (f.afterCalls calls).Settled ∧ (f.afterCalls calls).setup = f.setup := by
  induction calls generalizing f with
  | nil => exact ⟨h, rfl⟩
  | cons call calls ih =>
      obtain ⟨hSettled, hSetup⟩ := turn_frame h call
      obtain ⟨hLast, hSame⟩ := ih hSettled
      exact ⟨hLast, hSame.trans hSetup⟩

namespace SkipRun

/-- The number and the time of each picture of a run. -/
def slots (duration : Ticks) (run : SkipRun) : List (Nat × Ticks) :=
  match h : run.remaining with
  | 0 => []
  | _ + 1 =>
    have : (run.next duration).remaining < run.remaining := by
      rw [next, h]
      exact Nat.lt_succ_self _
    (run.nextFrameNum, run.nextDts) :: slots duration (run.next duration)
termination_by run.remaining

/-- Consecutive numbers at even distances, up to the end of the range of time stamps. -/
def spread (duration : Ticks) (run : SkipRun) : List (Nat × Ticks) :=
  (List.range run.remaining).map fun index =>
    (run.nextFrameNum + index, Ticks.clamp (run.nextDts.toInt + index * duration.toInt))

/-- The slots of a run are its first one and those of what is left of it. -/
theorem slots_of_pos {run : SkipRun} (h : 0 < run.remaining) (duration : Ticks) :
    run.slots duration = (run.nextFrameNum, run.nextDts) :: (run.next duration).slots duration := by
  rw [slots]
  split
  case h_1 hNone => omega
  case h_2 => rfl

/-- The time of a picture behind the first one, seen from the second one. -/
theorem clamp_next {duration : Ticks} (h : 0 ≤ duration.toInt) (run : SkipRun) (index : Nat) :
    Ticks.clamp ((run.next duration).nextDts.toInt + index * duration.toInt)
      = Ticks.clamp (run.nextDts.toInt + (index + 1 : Nat) * duration.toInt) := by
  have hFrom := run.nextDts.minValue_le_toInt
  have hWay : 0 ≤ index * duration.toInt := Int.mul_nonneg (Int.natCast_nonneg index) h
  have hSum : ((index + 1 : Nat) : Int) * duration.toInt = index * duration.toInt + duration.toInt := by
    rw [Int.natCast_succ, Int.add_mul, Int.one_mul]
  apply Int64.toInt_inj.mp
  rw [next, Ticks.addSat, Ticks.toInt_clamp, Ticks.toInt_clamp, Ticks.toInt_clamp, hSum]
  omega

/-- Going on picture by picture, a run keeps its distances. -/
theorem slots_eq_spread {duration : Ticks} (h : 0 ≤ duration.toInt) (run : SkipRun) :
    run.slots duration = run.spread duration := by
  fun_induction slots duration run with
  | case1 run hNone => rw [spread, hNone, List.range_zero, List.map_nil]
  | case2 run remaining hSome _ ih =>
      have hRest : (run.next duration).remaining = remaining := by rw [next, hSome, Nat.succ_sub_one]
      rw [ih, spread, spread, hSome, hRest, List.range_succ_eq_map, List.map_cons, List.map_map]
      congr 1
      · simp [Ticks.clamp_toInt]
      · apply List.map_congr_left
        intro index _
        rw [Function.comp_apply, clamp_next h, next]
        simp only [Prod.mk.injEq, and_true]
        omega

end SkipRun

/-- Where skipped pictures fit, every one of them can be written. -/
theorem Setup.exists_skip_of_fits {setup : Setup} (h : setup.skipFrame.Fits) (packet : Packet)
    (run : SkipRun) : ∃ skip, setup.skip packet run = .ok skip := by
  obtain ⟨data, hData⟩ := SkipFrame.exists_data_of_fits h run.nextFrameNum
  rw [skip, SkipFrame.packet, hData]
  exact ⟨_, rfl⟩

/-- Skipped pictures, counted over calls. -/
structure Tally where
  /-- Those given out since the adjustment was last reset. -/
  written : Nat := 0
  /-- Those that were to go before the packet that was taken last. -/
  scheduled : SkipRun := {}
  /-- How many of these have been given out. -/
  taken : Nat := 0
  /-- The time of the packet before that one. -/
  since : Ticks := Ticks.unset

/-- A packet that comes out resets the adjustment, if there is one. -/
def resets (f : Filter) (packet : Packet) : Bool :=
  f.adjustment != 0 && f.setup.endsGop packet

/-- Goes through calls in their order. -/
def Tally.count (tally : Tally) : Turn → Tally
  | .sent before _ answer =>
    match answer.result with
    | .ok () =>
      { tally with scheduled := answer.filter.pending, taken := 0, since := before.lastDts }
    | .error _ => tally
  | .received before answer =>
    match before.state, answer.result with
    | .holding packet run, .ok _ =>
      if 0 < run.remaining then
        { tally with written := tally.written + 1, taken := tally.taken + 1 }
      else if before.resets packet then { tally with written := 0 }
      else tally
    | _, _ => tally

/-- A packet that is taken starts a new run. -/
theorem Tally.count_send {f : Filter} (h : f.state = .idle) (tally : Tally) (packet : Packet) :
    tally.count (f.turn (.send packet))
      = { tally with scheduled := f.plan packet, taken := 0, since := f.lastDts } := by
  obtain ⟨hOk, hAfter⟩ := send_of_idle h packet
  simp only [Tally.count, turn, hOk, hAfter]
  rfl

/-- A packet that is refused is not counted. -/
theorem Tally.count_send_of_busy {f : Filter} (h : f.state ≠ .idle) (tally : Tally)
    (packet : Packet) : tally.count (f.turn (.send packet)) = tally := by
  simp only [Tally.count, turn, send_of_busy h]

def tally (turns : List Turn) : Tally :=
  turns.foldl Tally.count {}

/-- What the skipped pictures that were counted have to do with the state of the filter. -/
structure Orderly (f : Filter) (tally : Tally) : Prop where
  settled : f.Settled
  bound : f.pending.remaining ≤ 1000
  /-- The adjustment is the number of those given out and of those pending. -/
  sum : f.adjustment.toNat = (tally.written + f.pending.remaining) % 2 ^ 32
  /-- While a packet is held, those pending are the rest of those scheduled. -/
  count : f.state ≠ .idle → tally.taken + f.pending.remaining = tally.scheduled.remaining
  rest : f.state ≠ .idle → f.pending.slots f.setup.duration
    = (tally.scheduled.spread f.setup.duration).drop tally.taken
  /-- Those scheduled go on from what is remembered of the stream before them. -/
  start : f.state ≠ .idle → 0 < tally.scheduled.remaining →
    tally.scheduled.nextFrameNum = f.lastFrameNum + 1 ∧
      tally.scheduled.nextDts = Ticks.addSat tally.since f.setup.duration

/-- A run starts one number and one duration behind the last packet. -/
theorem start_plan {f : Filter} {packet : Packet} (h : 0 < (f.plan packet).remaining) :
    (f.plan packet).nextFrameNum = f.lastFrameNum + 1 ∧
      (f.plan packet).nextDts = Ticks.addSat f.lastDts f.setup.duration := by
  unfold plan at h ⊢
  split at h
  case isTrue => contradiction
  case isFalse hSet =>
    split at h
    case isTrue hGap =>
      rw [if_neg hSet, if_pos hGap]
      exact ⟨rfl, rfl⟩
    case isFalse => contradiction

/-- An idle filter is in order as soon as the adjustment is. -/
theorem Orderly.of_idle {f : Filter} {tally : Tally} (hState : f.state = .idle)
    (hSum : f.adjustment.toNat = tally.written % 2 ^ 32) : Orderly f tally := by
  have hNone : f.pending = {} := by rw [pending, hState]
  refine ⟨.inl hState, ?_, ?_, ?_, ?_, ?_⟩
  · rw [hNone]
    exact Nat.zero_le _
  · rw [hNone]
    exact hSum
  all_goals exact fun hBusy => absurd hState hBusy

/-- With nothing pending the adjustment counts the pictures given out. -/
theorem Orderly.sum_of_none {f : Filter} {tally : Tally} (h : Orderly f tally)
    (hNone : f.pending.remaining = 0) : f.adjustment.toNat = tally.written % 2 ^ 32 := by
  rw [h.sum, hNone, Nat.add_zero]

/-- A packet that is taken adds its pictures to those pending and to the adjustment alike. -/
theorem Orderly.send {f : Filter} {tally : Tally} (h : Orderly f tally) (packet : Packet) :
    Orderly (f.send packet).filter (tally.count (f.turn (.send packet))) := by
  by_cases hState : f.state = .idle
  · obtain ⟨_, hAfter⟩ := send_of_idle hState packet
    have hSum := h.sum_of_none (by rw [pending, hState])
    rw [Tally.count_send hState, hAfter]
    refine ⟨.inr ⟨packet, f.plan packet, rfl⟩, f.plan_remaining_le packet, ?_, fun _ => ?_,
      fun _ => ?_, fun _ => start_plan⟩
    · rw [adjustment_accept, hSum, Nat.mod_add_mod]
      rfl
    · exact Nat.zero_add _
    · exact (f.plan packet).slots_eq_spread (duration_pos_toInt f.setup).le
  · rw [Tally.count_send_of_busy hState, send_of_busy hState]
    exact h

/-- A skipped picture moves from those pending to those given out, and the adjustment stays. -/
theorem Orderly.skip {f : Filter} {tally : Tally} {packet : Packet} {run : SkipRun}
    (h : Orderly f tally) (hState : f.state = .holding packet run) (hRun : 0 < run.remaining) :
    Orderly { f with state := .holding packet (run.next f.setup.duration) }
      { tally with written := tally.written + 1, taken := tally.taken + 1 } := by
  have hBusy : f.state ≠ .idle := by simp [hState]
  have hPending : f.pending = run := by rw [pending, hState]
  have hBound := h.bound
  have hSum := h.sum
  have hCount := h.count hBusy
  have hRest := h.rest hBusy
  rw [hPending] at hBound hSum hCount hRest
  refine ⟨.inr ⟨_, _, rfl⟩, ?_, ?_, fun _ => ?_, fun _ => ?_, fun _ => h.start hBusy⟩
  · show run.remaining - 1 ≤ 1000
    omega
  · show f.adjustment.toNat = (tally.written + 1 + (run.remaining - 1)) % 2 ^ 32
    rw [hSum]
    congr 1
    omega
  · show tally.taken + 1 + (run.remaining - 1) = tally.scheduled.remaining
    omega
  · show (run.next f.setup.duration).slots f.setup.duration = _
    rw [← List.drop_drop, ← hRest, SkipRun.slots_of_pos hRun]
    rfl

/-- A packet that comes out leaves nothing pending, and may reset the adjustment and the count. -/
theorem Orderly.deliver {f after : Filter} {tally : Tally} {packet out : Packet} {run : SkipRun}
    (h : Orderly f tally) (hState : f.state = .holding packet run) (hRun : run.remaining = 0)
    (hDelivers : Delivers f packet (.ok out) after) :
    Orderly after (if f.resets packet then { tally with written := 0 } else tally) := by
  have hSum := h.sum_of_none (by rw [pending, hState, hRun])
  apply Orderly.of_idle hDelivers.frame.1
  rw [hDelivers.adjustment]
  unfold resets
  by_cases hEnds : f.setup.endsGop packet
  · by_cases hZero : f.adjustment = 0
    · simpa [hEnds, hZero] using hSum
    · simp [hEnds, hZero]
  · simpa [hEnds] using hSum

/-- A call of `receive` keeps the order, faults included. -/
theorem Orderly.receive {f : Filter} {tally : Tally} (h : Orderly f tally)
    (hFits : f.setup.skipFrame.Fits) :
    Orderly f.receive.filter (tally.count (f.turn .receive)) := by
  have hReceives := receives h.settled
  simp only [Tally.count, turn]
  generalize f.receive.result = result, f.receive.filter = after at hReceives ⊢
  cases hReceives with
  | drained hState =>
      rw [hState]
      exact h
  | skip hState hRun hSkip =>
      simp only [hState, hRun, if_true]
      exact h.skip hState hRun
  | skipFault hState hRun hSkip =>
      obtain ⟨skip, hOk⟩ := f.setup.exists_skip_of_fits hFits _ _
      cases hSkip.symm.trans hOk
  | due hState hRun hDelivers =>
      cases result with
      | ok out =>
          simp only [hState, hRun, Nat.lt_irrefl, if_false]
          exact h.deliver hState hRun hDelivers
      | error fault =>
          obtain ⟨_, hAfter⟩ := Receives.of_error (.due hState hRun hDelivers) hState
          rw [hAfter, hState]
          -- The fault is in the packet itself, as skipped pictures can be written.
          exact .of_idle rfl (h.sum_of_none (by rw [pending, hState, hRun]))

/-- Either call keeps the order. -/
theorem Orderly.turn {f : Filter} {tally : Tally} (h : Orderly f tally)
    (hFits : f.setup.skipFrame.Fits) (call : Call) :
    Orderly (f.turn call).after (tally.count (f.turn call)) := by
  cases call with
  | send packet => exact h.send packet
  | receive => exact h.receive hFits

/-- Any number of calls keep the order, by induction over them. -/
theorem Orderly.afterCalls {f : Filter} {tally : Tally} (h : Orderly f tally)
    (hFits : f.setup.skipFrame.Fits) (calls : List Call) :
    Orderly (f.afterCalls calls) ((f.turns calls).foldl Tally.count tally) := by
  induction calls generalizing f tally with
  | nil => exact h
  | cons call calls ih =>
      obtain ⟨_, hSetup⟩ := turn_frame h.settled call
      rw [turns, Filter.afterCalls, List.foldl_cons]
      exact ih (h.turn hFits call) (hSetup ▸ hFits)

end Filter

end Cadence
