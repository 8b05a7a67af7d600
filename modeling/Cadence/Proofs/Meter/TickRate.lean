import Cadence.Meter.TickRate
import Cadence.Proofs.RingBuffer.Calls
import Cadence.Proofs.Ticks

/-!
What a tick rate meter keeps over a run of calls: the newest ticks since it was last emptied
(`keeps_serve`), which is what its ring buffer keeps over the same run (`ticks_serve`). The rate over an
interval parts them at the newest one that is old enough (`Parted`).
-/

namespace Cadence

namespace TickRate

/-- What can be done with a meter. -/
inductive Call
  | tick (time : Ticks)
  | reset
  deriving DecidableEq

namespace Call

def tick? : Call → Option Ticks
  | .tick time => some time
  | .reset => none

/-- What is done with the ticks. -/
def onTicks : Call → RingBuffer.Call Ticks
  | .tick time => .push time
  | .reset => .clear

theorem tick?_eq (call : Call) : call.tick? = call.onTicks.value? := by
  cases call <;> rfl

theorem ne_reset_iff (call : Call) : call ≠ .reset ↔ call.onTicks.value?.isSome := by
  cases call with
  | tick time => exact ⟨fun _ => rfl, fun _ => Call.noConfusion⟩
  | reset => exact ⟨fun h => absurd rfl h, Bool.noConfusion⟩

end Call

def step (meter : TickRate) : Call → TickRate
  | .tick time => meter.add time
  | .reset => meter.reset

def serve (meter : TickRate) (calls : List Call) : TickRate :=
  calls.foldl step meter

/-- The ticks behind the last reset. -/
def sinceReset (calls : List Call) : List Ticks :=
  (calls.rtakeWhile (· ≠ .reset)).filterMap Call.tick?

/-- The newest ticks behind the last reset, as many as there is room for. -/
def kept (window : Nat) (calls : List Call) : List Ticks :=
  (sinceReset calls).rtake window

section Runs

variable {window : Nat} {meter : TickRate} {calls : List Call}

theorem sinceReset_eq (calls : List Call) :
    sinceReset calls = RingBuffer.sinceClear (calls.map Call.onTicks) := by
  have hTick : Call.tick? = RingBuffer.Call.value? ∘ Call.onTicks := funext Call.tick?_eq
  have hReset : (fun call : Call => decide (call ≠ .reset)) = (·.value?.isSome) ∘ Call.onTicks :=
    funext fun call => Bool.eq_iff_iff.mpr (decide_eq_true_iff.trans call.ne_reset_iff)
  rw [sinceReset, RingBuffer.sinceClear, List.rtakeWhile, List.rtakeWhile, ← List.map_reverse,
    List.takeWhile_map, ← List.map_reverse, List.filterMap_map, hTick, hReset]

theorem ticks_step (meter : TickRate) (call : Call) :
    (meter.step call).ticks = meter.ticks.step call.onTicks := by
  cases call <;> rfl

/-- A run of calls of a meter is one of its ring buffer. -/
theorem ticks_serve (meter : TickRate) (calls : List Call) :
    (serve meter calls).ticks = meter.ticks.serve (calls.map Call.onTicks) := by
  induction calls generalizing meter with
  | nil => rfl
  | cons call calls ih =>
      calc (serve (meter.step call) calls).ticks
          = (meter.step call).ticks.serve (calls.map Call.onTicks) := ih _
        _ = (meter.ticks.step call.onTicks).serve (calls.map Call.onTicks) := by rw [ticks_step]

/-- A meter that some calls have been made of. -/
structure Keeps (window : Nat) (meter : TickRate) (calls : List Call) : Prop where
  capacity : meter.ticks.capacity = window
  values : meter.ticks.values = kept window calls

/-- After any calls the meter keeps the newest ticks since it was last reset. -/
theorem keeps_serve (h : ofWindow window = .ok meter) (calls : List Call) :
    Keeps window (serve meter calls) calls := by
  rw [ofWindow, RingBuffer.ofCapacity] at h
  split at h
  case isTrue hWindow =>
    obtain rfl := Except.ok.inj h
    refine ⟨?_, ?_⟩
    · rw [ticks_serve, RingBuffer.capacity_serve]
      rfl
    · rw [ticks_serve, RingBuffer.values_serve_empty hWindow, kept, sinceReset_eq]
  case isFalse => cases h

end Runs

section Parting

variable {ticks front back : List Ticks} {threshold start : Ticks}

/-- Ticks in front of the newest one that is not above a threshold, and behind it. -/
structure Parted (ticks : List Ticks) (threshold : Ticks) (front : List Ticks) (start : Ticks)
    (back : List Ticks) : Prop where
  eq : ticks = front ++ start :: back
  start_le : start ≤ threshold
  lt_back : ∀ tick ∈ back, threshold < tick

theorem Parted.length_eq (h : Parted ticks threshold front start back) :
    ticks.length = front.length + (back.length + 1) := by
  rw [h.eq, List.length_append, List.length_cons]

theorem Parted.getElem?_length (h : Parted ticks threshold front start back) :
    ticks[front.length]? = some start := by
  rw [h.eq, List.getElem?_append_right le_rfl, Nat.sub_self]
  rfl

theorem Parted.drop_eq (h : Parted ticks threshold front start back) :
    ticks.drop (front.length + 1) = back := by
  rw [h.eq, ← List.singleton_append, ← List.append_assoc]
  exact List.drop_left' (List.length_append ..)

/-- If not all ticks are above a threshold, there is a newest one among the others. -/
theorem all_lt_or_parted (ticks : List Ticks) (threshold : Ticks) :
    (∀ tick ∈ ticks, threshold < tick) ∨ ∃ front start back, Parted ticks threshold front start back := by
  induction ticks using List.reverseRecOn with
  | nil => exact .inl nofun
  | append_singleton ticks tick ih =>
      by_cases hLe : tick ≤ threshold
      · exact .inr ⟨ticks, tick, [], rfl, hLe, nofun⟩
      · have hLt : threshold < tick := Int64.not_le.mp hLe
        rcases ih with hAll | ⟨front, start, back, rfl, hStart, hBack⟩
        · exact .inl fun other hOther => (List.mem_append.mp hOther).elim (hAll other) fun hTick =>
            List.mem_singleton.mp hTick ▸ hLt
        · refine .inr ⟨front, start, back ++ [tick], ?_, hStart, fun other hOther => ?_⟩
          · rw [List.append_assoc, List.cons_append]
          · exact (List.mem_append.mp hOther).elim (hBack other) fun hTick =>
              List.mem_singleton.mp hTick ▸ hLt

theorem Parted.find?_reverse (h : Parted ticks threshold front start back) :
    ticks.reverse.find? (· ≤ threshold) = some start := by
  have hBack : back.reverse.find? (· ≤ threshold) = none := by
    rw [List.find?_eq_none]
    intro tick hTick
    have := h.lt_back tick (List.mem_reverse.mp hTick)
    simpa using this
  rw [h.eq, List.reverse_append, List.reverse_cons, List.append_assoc, List.find?_append, hBack,
    List.singleton_append, Option.none_or, List.find?_cons_of_pos (by simpa using h.start_le)]

theorem Parted.takeWhile_reverse (h : Parted ticks threshold front start back) :
    ticks.reverse.takeWhile (· > threshold) = back.reverse := by
  have hStart : ¬ start > threshold := Int64.not_lt.mpr h.start_le
  rw [h.eq, List.reverse_append, List.reverse_cons, List.append_assoc,
    List.takeWhile_append_of_pos fun tick hTick => decide_eq_true (h.lt_back tick (List.mem_reverse.mp hTick)),
    List.singleton_append, List.takeWhile_cons_of_neg (by simpa using hStart), List.append_nil]

/-- While ticks come in their order, those behind the parting are all that are above the threshold. -/
theorem Parted.back_eq_filter (h : Parted ticks threshold front start back) (hOrder : ticks.Pairwise (· ≤ ·)) :
    back = ticks.filter (threshold < ·) := by
  have hFront : front.filter (threshold < ·) = [] := by
    rw [List.filter_eq_nil_iff]
    intro tick hTick
    rw [h.eq, List.pairwise_append] at hOrder
    have hLe : tick ≤ start := hOrder.2.2 tick hTick start List.mem_cons_self
    simpa using Int64.le_trans hLe h.start_le
  have hBack : back.filter (threshold < ·) = back :=
    List.filter_eq_self.mpr fun tick hTick => decide_eq_true (h.lt_back tick hTick)
  have hStart : ¬ threshold < start := Int64.not_lt.mpr h.start_le
  rw [h.eq, List.filter_append, hFront, List.nil_append, List.filter_cons_of_neg (by simpa using hStart), hBack]

end Parting

section Over

variable {meter : TickRate} {ticks : List Ticks} {first last : Ticks} {interval : Nat}

theorem whole?_eq (hFirst : meter.ticks.values.head? = some first) (hLast : meter.ticks.values.getLast? = some last) :
    meter.whole? = some ⟨meter.ticks.size - 1, last - first⟩ := by
  rw [whole?, RingBuffer.oldest?_eq, RingBuffer.newest?_eq, hFirst, hLast]
  rfl

theorem over?_eq (hFirst : meter.ticks.values.head? = some first) (hLast : meter.ticks.values.getLast? = some last)
    (interval : Nat) :
    meter.over? interval = if interval = 0 ∨ last - first < 0 then none
      else if last - first < Ticks.clamp interval then meter.whole?
      else (meter.ticks.values.reverse.find? (· ≤ last - Ticks.clamp interval)).map fun start =>
        ⟨(meter.ticks.values.reverse.takeWhile (· > last - Ticks.clamp interval)).length, last - start⟩ := by
  rw [over?, RingBuffer.newest?_eq, hLast, whole?_eq hFirst hLast]
  dsimp only [Option.bind_eq_bind, Option.bind_some]
  cases meter.ticks.values.reverse.find? (· ≤ last - Ticks.clamp interval) <;> rfl

/-- A meter with a first and a last tick, which is not too far from any of them. -/
structure Spans (ticks : List Ticks) (first last : Ticks) : Prop where
  head : ticks.head? = some first
  getLast : ticks.getLast? = some last
  inRange : ∀ tick ∈ ticks, Ticks.InRange (last.toInt - tick.toInt)

/-- Every tick can be subtracted from the last one without a wrap. -/
theorem Spans.toInt_sub (h : Spans ticks first last) {tick : Ticks} (hTick : tick ∈ ticks) :
    (last - tick).toInt = last.toInt - tick.toInt :=
  Ticks.toInt_sub (h.inRange tick hTick)

theorem Spans.first_mem (h : Spans ticks first last) : first ∈ ticks :=
  List.mem_of_head? h.head

/-- There is a time before which the interval starts. -/
theorem inRange_threshold (hInterval : 1 ≤ interval)
    (hCovered : (Ticks.clamp interval).toInt ≤ last.toInt - first.toInt) :
    Ticks.InRange (last.toInt - (Ticks.clamp interval).toInt) := by
  have hLimit := Ticks.toInt_clamp_pos hInterval
  have hFrom : Int64.minValue.toInt ≤ first.toInt := first.minValue_le_toInt
  have hTill : last.toInt ≤ Int64.maxValue.toInt := last.toInt_le
  constructor <;> omega

/-- If the ticks cover the interval, the first one is not above the threshold, and the last one is. -/
theorem Spans.exists_parted (h : Spans ticks first last) (hInterval : 1 ≤ interval)
    (hCovered : (Ticks.clamp interval).toInt ≤ last.toInt - first.toInt) :
    ∃ front start back, Parted ticks (last - Ticks.clamp interval) front start back ∧ back ≠ [] := by
  have hThreshold := Ticks.toInt_sub (inRange_threshold hInterval hCovered)
  have hLimit := Ticks.toInt_clamp_pos hInterval
  rcases all_lt_or_parted ticks (last - Ticks.clamp interval) with hAll | ⟨front, start, back, hParted⟩
  · have hFirst := Int64.lt_iff_toInt_lt.mp (hAll first h.first_mem)
    omega
  · refine ⟨front, start, back, hParted, ?_⟩
    rintro rfl
    have hStart : start = last := by
      have := h.getLast
      rw [hParted.eq, List.getLast?_concat] at this
      exact Option.some.inj this
    have hLe := Int64.le_iff_toInt_le.mp hParted.start_le
    rw [hStart] at hLe
    omega

/-- The tick at the parting is at least as old as the interval is long. -/
theorem Parted.interval_le {front back : List Ticks} {start : Ticks}
    (h : Parted ticks (last - Ticks.clamp interval) front start back)
    (hThreshold : Ticks.InRange (last.toInt - (Ticks.clamp interval).toInt)) :
    (Ticks.clamp interval).toInt ≤ last.toInt - start.toInt := by
  have hLe := Int64.le_iff_toInt_le.mp h.start_le
  rw [Ticks.toInt_sub hThreshold] at hLe
  omega

/-- Over a covered interval the ticks counted are those behind the newest one that is old enough. -/
theorem Spans.over?_of_parted {front back : List Ticks} {start : Ticks} (h : Spans meter.ticks.values first last)
    (hInterval : 1 ≤ interval) (hCovered : (Ticks.clamp interval).toInt ≤ last.toInt - first.toInt)
    (hParted : Parted meter.ticks.values (last - Ticks.clamp interval) front start back) :
    meter.over? interval = some ⟨back.length, last - start⟩ := by
  have hSpan := h.toInt_sub h.first_mem
  have hLimit := Ticks.toInt_clamp_pos hInterval
  have hStop : ¬ (interval = 0 ∨ last - first < 0) := by
    rw [Int64.lt_iff_toInt_lt, hSpan, Int64.toInt_zero]
    omega
  have hShort : ¬ last - first < Ticks.clamp interval := by
    rw [Int64.lt_iff_toInt_lt, hSpan]
    omega
  rw [over?_eq h.head h.getLast, if_neg hStop, if_neg hShort, hParted.find?_reverse, hParted.takeWhile_reverse,
    List.length_reverse, Option.map_some]

end Over

end TickRate

end Cadence
