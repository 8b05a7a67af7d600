import Mathlib.Algebra.Order.BigOperators.Group.List
import Cadence.Proofs.Machine.Rescale
import Cadence.Proofs.Meter.Window

/-!
Measuring a bit rate on a machine. The sums of the window are kept in words: the oldest chunk is taken out of
them before the new one is added. As long as the sizes of a window fit together, and so do the times between
two calls, no word is left, and none goes below zero (`recordAll_window`).
-/

namespace Cadence

namespace Machine

open Bitrate (Call counted steps elapsed window)

/-- The sums without the oldest chunk, if it is about to leave a full window. -/
def room (meter : Bitrate) : Machine (Nat × Int) :=
  match if meter.isFull then meter.chunks.oldest? else none with
  | none => return (meter.totalSize.toNat, meter.windowMs.toInt)
  | some oldest => do
    let totalSize ← sub meter.totalSize.toNat oldest.size.toNat
    let windowMs ← fitSigned 64 (meter.windowMs.toInt - oldest.milliseconds.toInt)
    return (totalSize, windowMs)

def record (meter : Bitrate) (call : Call) : Machine Bitrate :=
  match meter.lastTime with
  | none => return { meter with lastTime := some call.now }
  | some last => do
    let difference ← fitSigned 64 (call.now.toInt - last.toInt)
    let milliseconds ← divide (Int64.ofInt difference) 1000
    let (totalSize, windowMs) ← room meter
    let totalSize ← add 64 totalSize call.size.toNat
    let windowMs ← fitSigned 64 (windowMs + milliseconds.toInt)
    return {
      chunks := meter.chunks.push ⟨call.size, milliseconds⟩
      totalSize := UInt64.ofNat totalSize
      windowMs := Int64.ofInt windowMs
      lastTime := some call.now }

/-- Records chunks one after the other. -/
def recordAll (calls : List Call) : Machine Bitrate :=
  calls.foldlM record .empty

section Steps

variable {meter : Bitrate} {calls : List Call}

open Bitrate (sizeSum timeSum chunkOf)

/-- The oldest chunk is among those that the sums go over. -/
theorem room_eq (hSize : meter.totalSize.toNat = sizeSum meter.chunks.values)
    (hTime : meter.windowMs.toInt = timeSum meter.chunks.values)
    (hRoom : |timeSum meter.staying| < 2 ^ 63) :
    room meter = .ok (sizeSum meter.staying, timeSum meter.staying) := by
  rw [room, Bitrate.staying] at *
  cases hFull : meter.isFull with
  | false =>
      rw [if_neg Bool.false_ne_true, if_neg Bool.false_ne_true, hSize, hTime]
      rfl
  | true =>
      rw [hFull, if_pos rfl] at hRoom
      rw [if_pos rfl, if_pos rfl, RingBuffer.oldest?_eq]
      cases hValues : meter.chunks.values with
      | nil =>
          rw [hValues] at hSize hTime
          rw [hSize, hTime]
          rfl
      | cons oldest rest =>
          rw [hValues, sizeSum, List.map_cons, List.sum_cons] at hSize
          rw [hValues, timeSum, List.map_cons, List.sum_cons] at hTime
          rw [hValues] at hRoom
          have hSub : sub meter.totalSize.toNat oldest.size.toNat = .ok (sizeSum rest) := by
            rw [sub_of_le (by omega), hSize, Nat.add_sub_cancel_left]
            rfl
          have hDifference : meter.windowMs.toInt - oldest.milliseconds.toInt = timeSum rest := by
            rw [hTime, add_sub_cancel_left]
            rfl
          have hFit : fitSigned 64 (timeSum rest) = .ok (timeSum rest) :=
            fitSigned_of_abs_lt hRoom
          show (do
            let totalSize ← sub meter.totalSize.toNat oldest.size.toNat
            let windowMs ← fitSigned 64 (meter.windowMs.toInt - oldest.milliseconds.toInt)
            return (totalSize, windowMs)) = _
          rw [hSub, ok_bind, hDifference, hFit]
          rfl

/-- A call meets no hazard if the sizes fit together before and after it. -/
theorem record_eq (h : meter.Records calls) (call : Call)
    (hTimes : ∀ step ∈ steps (calls ++ [call]), Ticks.InRange (elapsed step))
    (hBefore : ((counted calls).map (·.2.size.toNat)).sum < 2 ^ 64)
    (hAfter : ((counted (calls ++ [call])).map (·.2.size.toNat)).sum < 2 ^ 64) :
    record meter call = .ok (meter.record call.size call.now) := by
  cases hLast : calls.getLast? with
  | none =>
      obtain rfl := List.getLast?_eq_none_iff.mp hLast
      rw [record, Bitrate.record_of_lastTime_none h.lastTime, h.lastTime]
      rfl
  | some last =>
      have hTime : meter.lastTime = some last.now := by rw [h.lastTime, hLast]; rfl
      have hRange : Ticks.InRange (call.now.toInt - last.now.toInt) :=
        hTimes (last, call) (by rw [Bitrate.steps_concat hLast]; exact List.mem_concat_self)
      have hRoom := room_eq (h.toNat_totalSize hBefore) h.toInt_windowMs
        (h.abs_timeSum_staying_lt.trans (by decide))
      -- The new window is what stays of the old one and the new chunk.
      have hNew := h.staying_concat hLast call
      have hSizes : sizeSum meter.staying + call.size.toNat < 2 ^ 64 := by
        rw [← Bitrate.sizeSum_map_chunkOf, ← hNew, Bitrate.sizeSum_concat] at hAfter
        exact hAfter
      have hSum := Bitrate.abs_timeSum_lt (List.Sublist.refl ((counted (calls ++ [call])).map chunkOf))
        (Bitrate.length_counted_le _)
      rw [← hNew, Bitrate.timeSum_concat] at hSum
      have hFit := @fitSigned_of_abs_lt 64 _ (hSum.trans (by decide))
      have hSums := h.sums.makeRoom
      have hMilliseconds : divide (call.now - last.now) 1000
          = .ok (chunkOf (last, call)).milliseconds := divide_of_pos (by decide)
      rw [record, hTime]
      dsimp only
      rw [fitSigned_of_inRange hRange, ok_bind, Ticks.ofInt_sub_toInt, hMilliseconds, ok_bind, hRoom, ok_bind,
        add_of_lt hSizes, ok_bind, hFit, ok_bind, Bitrate.record_of_lastTime hTime, UInt64.ofNat_add, UInt64.ofNat_toNat,
        Int64.ofInt_add, Int64.ofInt_toInt, ← hSums.totalSize, ← hSums.windowMs]
      rfl

end Steps

section Runs

variable {calls : List Call}

open Bitrate (newest)

theorem recordAll_concat (calls : List Call) (call : Call) :
    recordAll (calls ++ [call]) = recordAll calls >>= fun meter => record meter call := by
  rw [recordAll, List.foldlM_append]
  refine congrArg (recordAll calls >>= ·) (funext fun meter => ?_)
  rw [List.foldlM_cons]
  exact bind_pure _

/-- As long as times can be subtracted and the newest sizes added up, every call is made on words as
on integers. -/
theorem recordAll_eq (hTimes : ∀ step ∈ steps calls, Ticks.InRange (elapsed step))
    (hSizes : ∀ count ≤ calls.length, ((newest (calls.take count)).map (·.size.toNat)).sum < 2 ^ 64) :
    recordAll calls = .ok (Bitrate.recordAll calls) := by
  induction calls using List.reverseRecOn with
  | nil => rfl
  | append_singleton calls call ih =>
      have hEarlier (count : Nat) (hCount : count ≤ calls.length) :
          ((newest (calls.take count)).map (·.size.toNat)).sum < 2 ^ 64 := by
        have := hSizes count (hCount.trans (by rw [List.length_append]; omega))
        rwa [List.take_append_of_le_length hCount] at this
      have hBefore := hEarlier calls.length le_rfl
      have hAfter := hSizes (calls ++ [call]).length le_rfl
      rw [List.take_length, ← Bitrate.counted_map_snd, List.map_map] at hBefore hAfter
      rw [recordAll_concat, Bitrate.recordAll_concat,
        ih (fun step hStep => hTimes step (Bitrate.steps_subset_concat calls call hStep)) hEarlier, ok_bind]
      exact record_eq (Bitrate.records_recordAll calls) call hTimes hBefore hAfter

/-- If the sizes of all calls fit together, so do those of every window. -/
theorem sum_newest_lt (h : (calls.map (·.size.toNat)).sum < 2 ^ 64) (count : Nat) :
    ((newest (calls.take count)).map (·.size.toNat)).sum < 2 ^ 64 := by
  have hWindow : (newest (calls.take count)).Sublist calls :=
    (List.drop_sublist _ _).trans (List.take_sublist _ _)
  exact Nat.lt_of_le_of_lt ((hWindow.map _).sum_le_sum fun size _ => Nat.zero_le size) h

/-- Chunks are recorded without leaving a word, as long as the sizes in the window fit together and so do
the times between two calls. Then the sums of the window are those over the newest calls, of which each is
counted with the time since the one before it, and the window is full once that many have come. -/
theorem recordAll_window (hTimes : ∀ step ∈ steps calls, Ticks.InRange (elapsed step))
    (hSizes : ∀ count ≤ calls.length, ((newest (calls.take count)).map (·.size.toNat)).sum < 2 ^ 64) :
    recordAll calls = .ok (Bitrate.recordAll calls) ∧
    (Bitrate.recordAll calls).totalSize.toNat = ((newest calls).map (·.size.toNat)).sum ∧
    (counted calls).map Prod.snd = newest calls ∧
    (Bitrate.recordAll calls).windowMs.toInt
      = ((counted calls).map fun step => (elapsed step).tdiv 1000).sum ∧
    ((Bitrate.recordAll calls).isFull ↔ window ≤ calls.length - 1) := by
  have hNewest := hSizes calls.length le_rfl
  rw [List.take_length, ← Bitrate.counted_map_snd, List.map_map] at hNewest
  refine ⟨recordAll_eq hTimes hSizes, ?_, Bitrate.counted_map_snd calls,
    Bitrate.windowMs_eq fun step hStep => hTimes step (Bitrate.mem_steps_of_mem_counted hStep),
    Bitrate.isFull_iff calls⟩
  rw [Bitrate.totalSize_eq hNewest, ← Bitrate.counted_map_snd, List.map_map]
  rfl

/-- Chunks that are larger and larger come every one and a half milliseconds, but for one that comes
before the one in front of it. -/
def sampleLong : List Call :=
  (List.range 203).map fun place =>
    ⟨UInt64.ofNat place, Int64.ofInt (1500 * place - if place = 150 then 10000 else 0)⟩

/-- The newest 200 chunks are counted, and each interval before them is cut to whole
milliseconds. -/
theorem recordAll_window_sampleLong :
    recordAll sampleLong = .ok (Bitrate.recordAll sampleLong) ∧
    (Bitrate.recordAll sampleLong).totalSize.toNat = 20500 ∧
    (Bitrate.recordAll sampleLong).windowMs.toInt = 201 ∧
    (Bitrate.recordAll sampleLong).isFull := by
  have hSizes : (sampleLong.map (·.size.toNat)).sum < 2 ^ 64 := by decide +kernel
  obtain ⟨hMachine, hSize, -, hTime, hFull⟩ :=
    @recordAll_window sampleLong (by decide +kernel) fun count _ => sum_newest_lt hSizes count
  exact ⟨hMachine, hSize.trans (by decide +kernel), hTime.trans (by decide +kernel),
    hFull.mpr (by decide +kernel)⟩

end Runs

end Machine

end Cadence
