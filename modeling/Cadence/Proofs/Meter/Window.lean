import Mathlib.Algebra.Order.Group.Unbundled.Abs
import Mathlib.Tactic.Linarith
import Cadence.Meter.Bitrate
import Cadence.Proofs.RingBuffer
import Cadence.Proofs.Ticks

/-!
The bit rate over a run of calls. The sums that are kept while chunks come and go are those over the newest
chunks (`records_recordAll`), in words at first. Times always have room in them, since they are counted in
milliseconds (`windowMs_eq`), and so have sizes whose sum has room (`totalSize_eq`).
-/

namespace Cadence

namespace Bitrate

/-- A chunk of `size` bytes that comes at `now` microseconds. -/
structure Call where
  size : UInt64
  now : Ticks
  deriving DecidableEq

/-- Records chunks one after the other. -/
def recordAll (calls : List Call) : Bitrate :=
  calls.foldl (fun meter call => meter.record call.size call.now) .empty

/-- The calls but the first one, each behind the one before it. -/
def steps (calls : List Call) : List (Call × Call) :=
  calls.zip calls.tail

/-- The newest steps, as many as the window has room for. -/
def counted (calls : List Call) : List (Call × Call) :=
  (steps calls).rtake window

/-- The newest calls, as many as the window has room for. The first of all is not among them. -/
def newest (calls : List Call) : List Call :=
  calls.drop (calls.length - min (calls.length - 1) window)

/-- What is recorded of a step. -/
def chunkOf (step : Call × Call) : Chunk :=
  ⟨step.2.size, milliseconds step.1.now step.2.now⟩

section Steps

variable {calls : List Call}

theorem length_steps (calls : List Call) : (steps calls).length = calls.length - 1 := by
  rw [steps, List.length_zip, List.length_tail]
  omega

theorem steps_concat {last : Call} (h : calls.getLast? = some last) (call : Call) :
    steps (calls ++ [call]) = steps calls ++ [(last, call)] := by
  induction calls with
  | nil => cases h
  | cons first calls ih =>
      cases calls with
      | nil =>
          cases h
          rfl
      | cons second calls =>
          rw [List.getLast?_cons_cons] at h
          exact congrArg ((first, second) :: ·) (ih h)

theorem steps_subset_concat (calls : List Call) (call : Call) : steps calls ⊆ steps (calls ++ [call]) := by
  cases hLast : calls.getLast? with
  | none => rw [List.getLast?_eq_none_iff.mp hLast]; exact List.nil_subset _
  | some last => rw [steps_concat hLast]; exact List.subset_append_left _ _

end Steps

section Sums

/-- The sizes of chunks, added up. -/
def sizeSum (chunks : List Chunk) : Nat :=
  (chunks.map (·.size.toNat)).sum

/-- The milliseconds of chunks, added up. -/
def timeSum (chunks : List Chunk) : Int :=
  (chunks.map (·.milliseconds.toInt)).sum

theorem sizeSum_concat (chunks : List Chunk) (chunk : Chunk) :
    sizeSum (chunks ++ [chunk]) = sizeSum chunks + chunk.size.toNat := by
  simp [sizeSum]

theorem timeSum_concat (chunks : List Chunk) (chunk : Chunk) :
    timeSum (chunks ++ [chunk]) = timeSum chunks + chunk.milliseconds.toInt := by
  simp [timeSum]

/-- The sums of a meter are those over some chunks, as far as words go. -/
structure Sums (meter : Bitrate) (chunks : List Chunk) : Prop where
  totalSize : meter.totalSize = UInt64.ofNat (sizeSum chunks)
  windowMs : meter.windowMs = Int64.ofInt (timeSum chunks)

variable {meter : Bitrate}

/-- The chunks that stay when another one comes. -/
def staying (meter : Bitrate) : List Chunk :=
  if meter.isFull then meter.chunks.values.tail else meter.chunks.values

theorem values_push_eq_staying (meter : Bitrate) (chunk : Chunk) :
    (meter.chunks.push chunk).values = meter.staying ++ [chunk] :=
  meter.chunks.values_push_of_isFull chunk

/-- Making room keeps the sums in step with the chunks that stay. -/
theorem Sums.makeRoom (h : Sums meter meter.chunks.values) : Sums meter.makeRoom meter.staying := by
  rw [Bitrate.makeRoom, staying]
  cases hFull : meter.isFull with
  | false => exact h
  | true =>
      rw [if_pos rfl, if_pos rfl, RingBuffer.oldest?_eq]
      cases hValues : meter.chunks.values with
      | nil =>
          rw [hValues] at h
          exact h
      | cons oldest rest =>
          have hSize := h.totalSize
          have hTime := h.windowMs
          rw [hValues, sizeSum, List.map_cons, List.sum_cons, UInt64.ofNat_add, UInt64.ofNat_toNat] at hSize
          rw [hValues, timeSum, List.map_cons, List.sum_cons, Int64.ofInt_add, Int64.ofInt_toInt] at hTime
          refine ⟨?_, ?_⟩
          · show meter.totalSize - oldest.size = _
            rw [hSize, UInt64.add_comm, UInt64.add_sub_cancel]
            rfl
          · show meter.windowMs - oldest.milliseconds = _
            rw [hTime, Int64.add_comm, Int64.add_sub_cancel]
            rfl

@[simp] theorem chunks_makeRoom (meter : Bitrate) : meter.makeRoom.chunks = meter.chunks := by
  unfold makeRoom
  split <;> rfl

/-- The first call only starts the time. -/
theorem record_of_lastTime_none (h : meter.lastTime = none) (size : UInt64) (now : Ticks) :
    meter.record size now = { meter with lastTime := some now } := by
  rw [record, h]

theorem record_of_lastTime {last : Ticks} (h : meter.lastTime = some last) (size : UInt64) (now : Ticks) :
    meter.record size now = {
      chunks := meter.chunks.push ⟨size, milliseconds last now⟩
      totalSize := meter.makeRoom.totalSize + size
      windowMs := meter.makeRoom.windowMs + milliseconds last now
      lastTime := some now } := by
  rw [record, h]
  dsimp only
  rw [chunks_makeRoom]

/-- One more chunk keeps the sums in step. -/
theorem Sums.record {last : Ticks} (h : Sums meter meter.chunks.values) (hLast : meter.lastTime = some last)
    (size : UInt64) (now : Ticks) :
    Sums (meter.record size now) (meter.staying ++ [⟨size, milliseconds last now⟩]) := by
  rw [record_of_lastTime hLast]
  constructor
  · rw [sizeSum_concat, UInt64.ofNat_add, UInt64.ofNat_toNat, ← h.makeRoom.totalSize]
  · rw [timeSum_concat, Int64.ofInt_add, Int64.ofInt_toInt, ← h.makeRoom.windowMs]

end Sums

section Runs

/-- A meter that some calls have been made of: it has the newest chunks, and their sums. -/
structure Records (meter : Bitrate) (calls : List Call) : Prop where
  capacity : meter.chunks.capacity = window
  chunks : meter.chunks.values = (counted calls).map chunkOf
  sums : Sums meter meter.chunks.values
  lastTime : meter.lastTime = calls.getLast?.map (·.now)

/-- A new meter has recorded no calls. -/
theorem records_empty : Records .empty [] :=
  ⟨rfl, rfl, ⟨rfl, rfl⟩, rfl⟩

/-- The newest chunks behind another call. -/
theorem Records.values_push {meter : Bitrate} {calls : List Call} {last : Call} (h : Records meter calls)
    (hLast : calls.getLast? = some last) (call : Call) :
    (meter.chunks.push (chunkOf (last, call))).values = (counted (calls ++ [call])).map chunkOf := by
  rw [RingBuffer.values_push_eq_rtake, h.capacity, h.chunks, counted, counted, steps_concat hLast,
    ← map_rtake, ← map_rtake, rtake_rtake_concat, List.map_append]
  rfl

theorem Records.staying_concat {meter : Bitrate} {calls : List Call} {last : Call} (h : Records meter calls)
    (hLast : calls.getLast? = some last) (call : Call) :
    meter.staying ++ [chunkOf (last, call)] = (counted (calls ++ [call])).map chunkOf := by
  rw [← values_push_eq_staying, h.values_push hLast]

/-- Each call but the first adds the step that it ends. -/
theorem Records.record {meter : Bitrate} {calls : List Call} (h : Records meter calls) (call : Call) :
    Records (meter.record call.size call.now) (calls ++ [call]) := by
  cases hLast : calls.getLast? with
  | none =>
      obtain rfl := List.getLast?_eq_none_iff.mp hLast
      rw [record_of_lastTime_none h.lastTime]
      exact ⟨h.capacity, h.chunks, ⟨h.sums.totalSize, h.sums.windowMs⟩, rfl⟩
  | some last =>
      have hTime : meter.lastTime = some last.now := by rw [h.lastTime, hLast]; rfl
      have hSums := h.sums.record hTime call.size call.now
      rw [← values_push_eq_staying] at hSums
      rw [record_of_lastTime hTime] at hSums ⊢
      refine ⟨(RingBuffer.capacity_push _ _).trans h.capacity, h.values_push hLast call, hSums, ?_⟩
      rw [List.getLast?_concat]
      rfl

theorem recordAll_concat (calls : List Call) (call : Call) :
    recordAll (calls ++ [call]) = (recordAll calls).record call.size call.now := by
  rw [recordAll, List.foldl_append]
  rfl

/-- After any calls the meter holds the chunks of the newest ones, by induction over the calls. -/
theorem records_recordAll (calls : List Call) : Records (recordAll calls) calls := by
  induction calls using List.reverseRecOn with
  | nil => exact records_empty
  | append_singleton calls call ih =>
      rw [recordAll_concat]
      exact ih.record call

end Runs

section Exact

variable {calls : List Call}

/-- The microseconds from a call to the next one. -/
def elapsed (step : Call × Call) : Int :=
  step.2.now.toInt - step.1.now.toInt

theorem length_counted (calls : List Call) :
    (counted calls).length = min (calls.length - 1) window := by
  rw [counted, List.rtake, List.length_drop, length_steps]
  omega

theorem mem_steps_of_mem_counted {step : Call × Call} (h : step ∈ counted calls) :
    step ∈ steps calls :=
  List.mem_of_mem_drop h

/-- The calls that are counted are the newest ones. -/
theorem counted_map_snd (calls : List Call) : (counted calls).map Prod.snd = newest calls := by
  have hTail : (steps calls).map Prod.snd = calls.tail :=
    List.map_snd_zip (by rw [List.length_tail]; omega)
  rw [counted, ← map_rtake, hTail, newest, List.rtake, List.length_tail, ← List.drop_one, List.drop_drop]
  cases calls with
  | nil => rw [List.drop_nil, List.drop_nil]
  | cons first calls =>
      have hPlace : 1 + ((first :: calls).length - 1 - window)
          = (first :: calls).length - min ((first :: calls).length - 1) window := by
        rw [List.length_cons]
        omega
      rw [hPlace]

/-- As many milliseconds as a word can hold microseconds. -/
def maxMilliseconds : Int := Int64.maxValue.toInt / 1000

theorem abs_milliseconds_le (start stop : Ticks) :
    |(milliseconds start stop).toInt| ≤ maxMilliseconds := by
  have hFrom := (stop - start).le_toInt
  have hTill := (stop - start).toInt_lt
  have hQuotient : (milliseconds start stop).toInt = (stop - start).toInt.tdiv 1000 :=
    Ticks.toInt_div (by decide)
  have hLimit : maxMilliseconds = 9223372036854775 := by decide
  rw [hQuotient, hLimit, abs_le]
  generalize (stop - start).toInt = micros at hFrom hTill
  rcases le_or_gt 0 micros with hPos | hNeg
  · rw [Int.tdiv_eq_ediv_of_nonneg hPos]
    omega
  · have hBack : micros.tdiv 1000 = -((-micros) / 1000) := by
      rw [← Int.tdiv_eq_ediv_of_nonneg (by omega), Int.neg_tdiv, neg_neg]
    rw [hBack]
    omega

/-- Times are added up in words that have room for them. -/
theorem abs_timeSum_le {chunks : List Chunk}
    (h : ∀ chunk ∈ chunks, |chunk.milliseconds.toInt| ≤ maxMilliseconds) :
    |timeSum chunks| ≤ chunks.length * maxMilliseconds := by
  induction chunks with
  | nil => decide
  | cons chunk chunks ih =>
      have hChunk := abs_le.mp (h chunk List.mem_cons_self)
      have hRest := abs_le.mp (ih fun other hOther => h other (List.mem_cons_of_mem _ hOther))
      have hSum : timeSum (chunk :: chunks) = chunk.milliseconds.toInt + timeSum chunks := by
        rw [timeSum, List.map_cons, List.sum_cons]
        rfl
      rw [hSum, List.length_cons, abs_le]
      push_cast
      constructor <;> linarith

theorem sizeSum_map_chunkOf (steps : List (Call × Call)) :
    sizeSum (steps.map chunkOf) = (steps.map (·.2.size.toNat)).sum := by
  rw [sizeSum, List.map_map]
  rfl

theorem timeSum_map_chunkOf {steps : List (Call × Call)}
    (h : ∀ step ∈ steps, Ticks.InRange (elapsed step)) :
    timeSum (steps.map chunkOf) = (steps.map fun step => (elapsed step).tdiv 1000).sum := by
  rw [timeSum, List.map_map]
  refine congrArg List.sum (List.map_congr_left fun step hStep => ?_)
  show (milliseconds step.1.now step.2.now).toInt = _
  rw [milliseconds, Ticks.toInt_div (by decide), Ticks.toInt_sub (h step hStep)]
  rfl

/-- The times of a window have room in a word, with or without its oldest chunk. -/
theorem abs_timeSum_lt {steps : List (Call × Call)} {chunks : List Chunk}
    (h : chunks.Sublist (steps.map chunkOf)) (hLength : steps.length ≤ window) :
    |timeSum chunks| < 2 ^ 62 := by
  have hCount : (chunks.length : Int) ≤ window := by
    have := h.length_le
    rw [List.length_map] at this
    exact_mod_cast this.trans hLength
  have hSum : |timeSum chunks| ≤ chunks.length * maxMilliseconds := by
    refine abs_timeSum_le fun chunk hChunk => ?_
    obtain ⟨step, -, rfl⟩ := List.mem_map.mp (h.subset hChunk)
    exact abs_milliseconds_le step.1.now step.2.now
  calc |timeSum chunks| ≤ chunks.length * maxMilliseconds := hSum
    _ ≤ window * maxMilliseconds := mul_le_mul_of_nonneg_right hCount (by decide)
    _ < 2 ^ 62 := by decide

theorem length_counted_le (calls : List Call) : (counted calls).length ≤ window := by
  rw [length_counted]
  exact Nat.min_le_right _ _

section Records

variable {meter : Bitrate}

/-- The time is the sum over the chunks, which is too small to leave a word. -/
theorem Records.toInt_windowMs (h : Records meter calls) :
    meter.windowMs.toInt = timeSum meter.chunks.values := by
  have hSublist : meter.chunks.values.Sublist ((counted calls).map chunkOf) := h.chunks ▸ .refl _
  have hBound := abs_lt.mp (abs_timeSum_lt hSublist (length_counted_le calls))
  rw [h.sums.windowMs, Int64.toInt_ofInt_of_le (by linarith) (by linarith)]

/-- The size is the sum over the chunks, as long as it fits a word. -/
theorem Records.toNat_totalSize (h : Records meter calls)
    (hSizes : ((counted calls).map (·.2.size.toNat)).sum < 2 ^ 64) :
    meter.totalSize.toNat = sizeSum meter.chunks.values := by
  rw [← sizeSum_map_chunkOf, ← h.chunks] at hSizes
  rw [h.sums.totalSize, UInt64.toNat_ofNat_of_lt' hSizes]

theorem Records.abs_timeSum_staying_lt (h : Records meter calls) : |timeSum meter.staying| < 2 ^ 62 := by
  have hSublist : meter.staying.Sublist ((counted calls).map chunkOf) := by
    rw [← h.chunks, staying]
    split
    · exact List.tail_sublist _
    · exact .refl _
  exact abs_timeSum_lt hSublist (length_counted_le calls)

end Records

/-- The time of the window is never too long for its word. -/
theorem windowMs_eq (h : ∀ step ∈ counted calls, Ticks.InRange (elapsed step)) :
    (recordAll calls).windowMs.toInt
      = ((counted calls).map fun step => (elapsed step).tdiv 1000).sum := by
  have hRecords := records_recordAll calls
  rw [hRecords.toInt_windowMs, hRecords.chunks, timeSum_map_chunkOf h]

theorem totalSize_eq (h : ((counted calls).map (·.2.size.toNat)).sum < 2 ^ 64) :
    (recordAll calls).totalSize.toNat = ((counted calls).map (·.2.size.toNat)).sum := by
  have hRecords := records_recordAll calls
  rw [hRecords.toNat_totalSize h, hRecords.chunks, sizeSum_map_chunkOf]

/-- The window is full exactly if there were more calls than it has chunks. -/
theorem isFull_iff (calls : List Call) :
    (recordAll calls).isFull ↔ window ≤ calls.length - 1 := by
  have hRecords := records_recordAll calls
  have hSize : (recordAll calls).chunks.size = min (calls.length - 1) window := by
    rw [← RingBuffer.length_values, hRecords.chunks, List.length_map, length_counted]
  rw [isFull, RingBuffer.isFull, beq_iff_eq, hSize, hRecords.capacity]
  omega

end Exact

end Bitrate

end Cadence
