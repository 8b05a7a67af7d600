import Cadence.Proofs.Machine.Words
import Cadence.Proofs.Meter.Seconds
import Cadence.Proofs.Meter.TickRate

/-!
Measuring the rate of ticks on a machine. The search for the start of the interval goes back from the newest
tick, place by place. As long as no tick is too far from the newest one, all differences have words
(`measureOver_eq`). If the ticks cover the interval, the search finds a tick, and what is counted is neither empty
nor without time (`rateOver_of_covered`).
-/

namespace Cadence

namespace Machine

open TickRate (Measure Call serve kept Parted Spans)

/-- The newest of the first `count` ticks that is not above a threshold, with its place. -/
def searchBack (ticks : RingBuffer Ticks) (threshold : Ticks) : (count : Nat) → Option (Nat × Ticks)
  | 0 => none
  | place + 1 =>
    match (ticks.get? place).filter (· ≤ threshold) with
    | some tick => some (place, tick)
    | none => searchBack ticks threshold place

/-- All ticks, of which the first one only starts the time. -/
def whole (meter : TickRate) : Machine (Option Measure) :=
  match meter.ticks.oldest?, meter.ticks.newest? with
  | some first, some last => do
    let span ← fitSigned 64 (last.toInt - first.toInt)
    let count ← sub meter.ticks.size 1
    return some ⟨count, Int64.ofInt span⟩
  | _, _ => return none

/-- The ticks after the newest one that is at least `interval` older than the last tick. -/
def measureOver (meter : TickRate) (interval : Nat) : Machine (Option Measure) :=
  match meter.ticks.oldest?, meter.ticks.newest? with
  | some first, some last => do
    let span ← fitSigned 64 (last.toInt - first.toInt)
    if interval = 0 ∨ span < 0 then return none
    else if span < (Ticks.clamp interval).toInt then whole meter
    else do
      let threshold ← fitSigned 64 (last.toInt - (Ticks.clamp interval).toInt)
      match searchBack meter.ticks (Int64.ofInt threshold) meter.ticks.size with
      | none => return none
      | some (place, start) => do
        let span ← fitSigned 64 (last.toInt - start.toInt)
        let count ← sub (← sub meter.ticks.size 1) place
        return some ⟨count, Int64.ofInt span⟩
  | _, _ => return none

/-- Ticks per second over the last `interval` microseconds. -/
def rateOver (meter : TickRate) (interval : Nat) : Machine Float := do
  return ((← measureOver meter interval).map Measure.perSecond).getD 0.0

section Search

variable {ticks : RingBuffer Ticks} {front back rest : List Ticks} {threshold start : Ticks}

/-- Ticks above the threshold are passed over. -/
theorem searchBack_append (hValues : ticks.values = front ++ back ++ rest)
    (hBack : ∀ tick ∈ back, threshold < tick) :
    searchBack ticks threshold (front.length + back.length) = searchBack ticks threshold front.length := by
  induction back using List.reverseRecOn generalizing rest with
  | nil => rfl
  | append_singleton back tick ih =>
      have hPlace : ticks.get? (front.length + back.length) = some tick := by
        rw [RingBuffer.get?_eq, hValues, ← List.append_assoc, ← List.length_append, List.append_assoc,
          List.getElem?_append_right le_rfl, Nat.sub_self]
        rfl
      have hAbove : ¬ tick ≤ threshold :=
        Int64.not_le.mpr (hBack tick (List.mem_append_right _ List.mem_cons_self))
      have hSkip : (some tick).filter (fun tick => decide (tick ≤ threshold)) = none :=
        Option.filter_some_neg (by simpa using hAbove)
      rw [List.length_append, List.length_singleton, ← Nat.add_assoc, searchBack, hPlace, hSkip]
      have hRest : ticks.values = front ++ back ++ (tick :: rest) := by
        rw [hValues, List.append_assoc, List.append_assoc, List.append_assoc]
        rfl
      exact ih hRest fun other hOther => hBack other (List.mem_append_left _ hOther)

/-- The search ends at the parting. -/
theorem searchBack_of_parted (h : Parted ticks.values threshold front start back) :
    searchBack ticks threshold ticks.size = some (front.length, start) := by
  have hValues : ticks.values = (front ++ [start]) ++ back ++ [] := by
    rw [h.eq, List.append_nil, List.append_assoc]
    rfl
  have hSearch := searchBack_append hValues h.lt_back
  have hSize : (front ++ [start]).length + back.length = ticks.size := by
    rw [← ticks.length_values, h.length_eq, List.length_append, List.length_singleton]
    omega
  have hPlace : ticks.get? front.length = some start := by rw [RingBuffer.get?_eq, h.getElem?_length]
  have hFound : (some start).filter (fun tick => decide (tick ≤ threshold)) = some start :=
    Option.filter_some_pos (by simpa using h.start_le)
  rw [← hSize, hSearch, List.length_append, List.length_singleton, searchBack, hPlace, hFound]

end Search

section Over

variable {meter : TickRate} {first last : Ticks} {interval : Nat}

/-- The span of all ticks is measured on words as on integers, where the subtraction does not
overflow. -/
theorem whole_eq (hFirst : meter.ticks.values.head? = some first) (hLast : meter.ticks.values.getLast? = some last)
    (hSpan : Ticks.InRange (last.toInt - first.toInt)) :
    whole meter = .ok meter.whole? := by
  have hCount : sub meter.ticks.size 1 = .ok (meter.ticks.size - 1) := by
    have : meter.ticks.values ≠ [] := by rintro hNil; rw [hNil] at hFirst; cases hFirst
    exact sub_of_le (by rw [← meter.ticks.length_values]; exact List.length_pos_iff.mpr this)
  rw [whole, TickRate.whole?_eq hFirst hLast, RingBuffer.oldest?_eq, RingBuffer.newest?_eq, hFirst, hLast]
  dsimp only
  rw [fitSigned_of_inRange hSpan, ok_bind, hCount, ok_bind, Ticks.ofInt_sub_toInt]
  rfl

/-- The ticks counted are those behind the part that is older than the interval. -/
theorem measureOver_of_parted {front back : List Ticks} {start : Ticks} (h : Spans meter.ticks.values first last)
    (hInterval : 1 ≤ interval) (hCovered : (Ticks.clamp interval).toInt ≤ last.toInt - first.toInt)
    (hParted : Parted meter.ticks.values (last - Ticks.clamp interval) front start back) :
    measureOver meter interval = .ok (some ⟨back.length, last - start⟩) := by
  have hLimit := Ticks.toInt_clamp_pos hInterval
  have hStop : ¬ (interval = 0 ∨ last.toInt - first.toInt < 0) := by omega
  have hStart : start ∈ meter.ticks.values := List.mem_of_getElem? hParted.getElem?_length
  have hSize : meter.ticks.size = front.length + (back.length + 1) := by
    rw [← meter.ticks.length_values, hParted.length_eq]
  have hOne : sub meter.ticks.size 1 = .ok (front.length + back.length) := by
    rw [sub_of_le (by omega), hSize]
    rfl
  have hCount : sub (front.length + back.length) front.length = .ok back.length := by
    rw [sub_of_le (by omega), Nat.add_sub_cancel_left]
  rw [measureOver, RingBuffer.oldest?_eq, RingBuffer.newest?_eq, h.head, h.getLast]
  dsimp only
  rw [fitSigned_of_inRange (h.inRange first h.first_mem), ok_bind, if_neg hStop, if_neg (Int.not_lt.mpr hCovered),
    fitSigned_of_inRange (TickRate.inRange_threshold hInterval hCovered), ok_bind, Ticks.ofInt_sub_toInt,
    searchBack_of_parted hParted]
  dsimp only
  rw [fitSigned_of_inRange (h.inRange start hStart), ok_bind, hOne, ok_bind, hCount, ok_bind, Ticks.ofInt_sub_toInt]
  rfl

/-- No word is left if no tick is too far from the last one. -/
theorem measureOver_eq (hRange : ∀ last ∈ meter.ticks.values.getLast?, ∀ tick ∈ meter.ticks.values,
    Ticks.InRange (last.toInt - tick.toInt)) (interval : Nat) :
    measureOver meter interval = .ok (meter.over? interval) := by
  cases hLast : meter.ticks.values.getLast? with
  | none =>
      have hNil := List.getLast?_eq_none_iff.mp hLast
      rw [measureOver, TickRate.over?, RingBuffer.oldest?_eq, RingBuffer.newest?_eq, hNil]
      rfl
  | some last =>
      obtain ⟨first, hFirst⟩ : ∃ first, meter.ticks.values.head? = some first := by
        cases hHead : meter.ticks.values.head? with
        | none => rw [List.head?_eq_none_iff.mp hHead] at hLast; cases hLast
        | some first => exact ⟨first, rfl⟩
      have hSpans : Spans meter.ticks.values first last := ⟨hFirst, hLast, hRange last hLast⟩
      have hSpan := hSpans.toInt_sub hSpans.first_mem
      by_cases hCovered : 1 ≤ interval ∧ (Ticks.clamp interval).toInt ≤ last.toInt - first.toInt
      · obtain ⟨front, start, back, hParted, -⟩ := hSpans.exists_parted hCovered.1 hCovered.2
        rw [measureOver_of_parted hSpans hCovered.1 hCovered.2 hParted,
          hSpans.over?_of_parted hCovered.1 hCovered.2 hParted]
      · have hWhole := whole_eq hFirst hLast (hRange last hLast first hSpans.first_mem)
        have hStop : last - first < 0 ↔ last.toInt - first.toInt < 0 := by
          rw [Int64.lt_iff_toInt_lt, hSpan, Int64.toInt_zero]
        have hShort : last - first < Ticks.clamp interval
            ↔ last.toInt - first.toInt < (Ticks.clamp interval).toInt := by
          rw [Int64.lt_iff_toInt_lt, hSpan]
        rw [TickRate.over?_eq hFirst hLast, measureOver, hWhole, RingBuffer.oldest?_eq, RingBuffer.newest?_eq,
          hFirst, hLast]
        dsimp only
        rw [fitSigned_of_inRange (hRange last hLast first hSpans.first_mem), ok_bind]
        simp only [hStop, hShort]
        by_cases hNothing : interval = 0 ∨ last.toInt - first.toInt < 0
        · rw [if_pos hNothing, if_pos hNothing]
          rfl
        · have hPart : last.toInt - first.toInt < (Ticks.clamp interval).toInt := by omega
          rw [if_neg hNothing, if_neg hNothing, if_pos hPart, if_pos hPart]

theorem rateOver_eq (hRange : ∀ last ∈ meter.ticks.values.getLast?, ∀ tick ∈ meter.ticks.values,
    Ticks.InRange (last.toInt - tick.toInt)) (interval : Nat) :
    rateOver meter interval = .ok (meter.rateOver interval) := by
  rw [rateOver, measureOver_eq hRange, ok_bind]
  rfl

/-- The rate is that of the integers for all ticks that lie close enough to the last one. -/
theorem rateOver_of_spans (h : Spans meter.ticks.values first last) (interval : Nat) :
    rateOver meter interval = .ok (meter.rateOver interval) := by
  refine rateOver_eq (fun newest hNewest => ?_) interval
  rw [h.getLast] at hNewest
  obtain rfl := Option.some.inj hNewest
  exact h.inRange

end Over

section Runs

variable {window interval : Nat} {empty : TickRate} {calls : List Call} {first last : Ticks}

/-- Whatever ticks came, and in whatever order, there is a rate over an interval that they cover: the search
finds a tick in front of the last one, which is at least as old as the interval is long. So some ticks are
counted, in a time that is not zero. If the ticks came in their order, all that are in the interval are
counted, and no others. -/
theorem rateOver_of_covered (hMeter : TickRate.ofWindow window = .ok empty)
    (hSpans : Spans (kept window calls) first last) (hInterval : 1 ≤ interval)
    (hCovered : (Ticks.clamp interval).toInt ≤ last.toInt - first.toInt) :
    Ticks.InRange (last.toInt - (Ticks.clamp interval).toInt) ∧
    ∃ place start,
      searchBack (serve empty calls).ticks (last - Ticks.clamp interval) (kept window calls).length
        = some (place, start) ∧
      place + 1 < (kept window calls).length ∧
      (kept window calls)[place]? = some start ∧
      (Ticks.clamp interval).toInt ≤ last.toInt - start.toInt ∧
      let measure : Measure := ⟨(kept window calls).length - 1 - place, last - start⟩
      measureOver (serve empty calls) interval = .ok (some measure) ∧
      1 ≤ measure.count ∧
      measure.span.toInt = last.toInt - start.toInt ∧
      (measure.seconds == 0.0) = false ∧
      rateOver (serve empty calls) interval = .ok ((serve empty calls).rateOver interval) ∧
      (serve empty calls).rateOver interval = Float.ofNat measure.count / measure.seconds ∧
      ((kept window calls).Pairwise (· ≤ ·) →
        (kept window calls).drop (place + 1) = (kept window calls).filter (last - Ticks.clamp interval < ·)) := by
  rw [← (TickRate.keeps_serve hMeter calls).values] at hSpans ⊢
  have hThreshold := TickRate.inRange_threshold hInterval hCovered
  obtain ⟨front, start, back, hParted, hBack⟩ := hSpans.exists_parted hInterval hCovered
  have hSome : 1 ≤ back.length := List.length_pos_iff.mpr hBack
  have hLength := hParted.length_eq
  have hCount : (serve empty calls).ticks.values.length - 1 - front.length = back.length := by omega
  have hPlace := hParted.getElem?_length
  have hOld := hParted.interval_le hThreshold
  have hSpan := hSpans.toInt_sub (List.mem_of_getElem? hPlace)
  have hTime : 1 ≤ (last - start).toInt := by
    have hLimit := Ticks.toInt_clamp_pos hInterval
    omega
  have hSearch := searchBack_of_parted hParted
  rw [← RingBuffer.length_values] at hSearch
  have hRate : (serve empty calls).rateOver interval
      = Float.ofNat back.length / (⟨back.length, last - start⟩ : Measure).seconds := by
    rw [TickRate.rateOver, hSpans.over?_of_parted hInterval hCovered hParted, Option.map_some, Option.getD_some]
    exact Measure.perSecond_eq hSome hTime
  refine ⟨hThreshold, front.length, start, hSearch, by omega, hPlace, hOld, ?_⟩
  rw [hCount]
  exact ⟨measureOver_of_parted hSpans hInterval hCovered hParted, hSome, hSpan,
    Measure.seconds_ne_zero hTime, rateOver_of_spans hSpans interval,
    hRate, fun hOrder => hParted.drop_eq.trans (hParted.back_eq_filter hOrder)⟩

/-- A meter for four ticks that has been emptied once, and has lost one tick since then. Two ticks are as
old as the interval of ten microseconds is long. -/
def sampleTwice : List Call :=
  [.tick 900, .reset, .tick 10, .tick 20, .tick 30, .tick 30, .tick 40]

def sampleMeter : TickRate :=
  ⟨.empty 4 (by decide)⟩

/-- Of the two ticks that are ten microseconds old the later one is found, so that one tick is
counted. -/
theorem rateOver_of_covered_sampleTwice :
    measureOver (serve sampleMeter sampleTwice) 10 = .ok (some ⟨1, 10⟩) ∧
    (serve sampleMeter sampleTwice).rateOver 10 = Float.ofNat 1 / (⟨1, 10⟩ : Measure).seconds ∧
    (kept 4 sampleTwice).filter (30 < ·) = [40] := by
  have hMeter : TickRate.ofWindow 4 = .ok sampleMeter := rfl
  have hNear : (kept 4 sampleTwice).all (fun tick => Ticks.InRange ((40 : Ticks).toInt - tick.toInt)) := by
    decide
  have hSpans : Spans (kept 4 sampleTwice) 20 40 :=
    ⟨by decide, by decide, fun tick hTick => of_decide_eq_true (List.all_eq_true.mp hNear tick hTick)⟩
  obtain ⟨-, place, start, hSearch, -, -, -, hOver, -, -, -, -, hRate, hOrder⟩ :=
    rateOver_of_covered hMeter hSpans (show 1 ≤ 10 by decide) (by decide)
  have hFound : searchBack (serve sampleMeter sampleTwice).ticks (40 - Ticks.clamp 10)
      (kept 4 sampleTwice).length = some (2, 30) := by decide
  obtain ⟨rfl, rfl⟩ := Prod.mk.inj (Option.some.inj (hFound.symm.trans hSearch))
  exact ⟨hOver, hRate, (hOrder (by decide)).symm⟩

end Runs

end Machine

end Cadence
