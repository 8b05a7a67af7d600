import Cadence.Filter.Create
import Cadence.Filter.Run
import Cadence.Proofs.FrameNum.Faults

/-!
What single calls do to a filter. Between calls a filter is idle or holds a packet with a run of
skipped pictures (`Settled`); a packet that is sent is taken with its plan (`accept`), and a packet is
received in one of four ways (`Receives`). The two transitions in between never outlive a call.
-/

namespace Cadence

namespace Filter

/-- The skipped pictures that are to go before a packet. -/
def plan (f : Filter) (packet : Packet) : SkipRun :=
  if f.lastDts = Ticks.unset ∨ packet.dts = Ticks.unset then {}
  else if 0 < f.gap packet.dts ∧ f.gap packet.dts ≤ maxGap then
    ⟨(f.gap packet.dts).toInt.toNat, f.expectedDts, f.lastFrameNum + 1⟩
  else {}

def accept (f : Filter) (packet : Packet) : Filter :=
  { f with
    state := .holding packet (f.plan packet)
    lastDts := packet.dts
    adjustment := f.adjustment + UInt32.ofNat (f.plan packet).remaining }

/-- The skipped pictures that are still to go before the packet that is held. -/
def pending (f : Filter) : SkipRun :=
  match f.state with
  | .holding _ run => run
  | _ => {}

/-- The packet behind the skipped pictures, and the filter without it. -/
def deliver (f : Filter) (packet : Packet) : Answer Packet :=
  if packet.key then
    { filter := { f with state := .idle, adjustment := 0, lastFrameNum := 0 },
      result := .ok packet }
  else if 0 < f.adjustment then f.renumber packet
  else f.release packet

def Setup.skip (setup : Setup) (packet : Packet) (run : SkipRun) : Except Fault Packet :=
  setup.skipFrame.packet run.nextFrameNum run.nextDts setup.duration setup.timeBase packet.stream

/-- What is left of a run without its first picture. -/
def SkipRun.next (run : SkipRun) (duration : Ticks) : SkipRun :=
  ⟨run.remaining - 1, Ticks.addSat run.nextDts duration, run.nextFrameNum + 1⟩

/-- The state of a filter between two calls. -/
def Settled (f : Filter) : Prop :=
  f.state = .idle ∨ ∃ packet run, f.state = .holding packet run

theorem isIdle_iff (f : Filter) : f.isIdle ↔ f.state = .idle := by
  unfold isIdle
  split
  · simp_all
  · simp_all

/-- An idle filter takes a packet. -/
theorem send_of_idle {f : Filter} (h : f.state = .idle) (packet : Packet) :
    (f.send packet).result = .ok () ∧ (f.send packet).filter = f.accept packet := by
  have hIdle : f.isIdle = true := f.isIdle_iff.mpr h
  unfold send accept plan
  simp only [hIdle, Bool.not_true, Bool.false_eq_true, if_false]
  by_cases hUnset : f.lastDts = Ticks.unset ∨ packet.dts = Ticks.unset
  · simp [hUnset]
  · by_cases hBroken : f.gap packet.dts > maxGap
    · have hPlan : ¬ (0 < f.gap packet.dts ∧ f.gap packet.dts ≤ maxGap) :=
        fun h => Int64.not_le.mpr hBroken h.2
      simp [hUnset, hBroken, hPlan]
    · have hLe := Int64.not_lt.mp hBroken
      by_cases hGap : 0 < f.gap packet.dts <;> simp [hUnset, hBroken, hLe, hGap]

/-- A filter that holds a packet refuses another one, and stays as it is. -/
theorem send_of_busy {f : Filter} (h : f.state ≠ .idle) (packet : Packet) :
    f.send packet = { filter := f, result := .error (.notDrained f.setup.label) } := by
  have hBusy : f.isIdle = false := by simpa using fun hIdle => h (f.isIdle_iff.mp hIdle)
  simp [send, hBusy]

/-- A transition that answers is all there is to the call. -/
theorem receive_of_answer {f : Filter} {answer : Answer Packet} (h : f.step = .answer answer) :
    f.receive = answer := by
  rw [receive]
  split
  case h_1 other hOther =>
    cases h.symm.trans hOther
    rfl
  case h_2 hOther => cases h.symm.trans hOther

/-- A transition that does not answer is followed by the next one. -/
theorem receive_of_next {f g : Filter} (h : f.step = .next g) : f.receive = g.receive := by
  rw [receive]
  split
  case h_1 hOther => cases h.symm.trans hOther
  case h_2 other hOther =>
    cases h.symm.trans hOther
    rfl

theorem receive_of_idle {f : Filter} (h : f.state = .idle) :
    f.receive = { filter := f, result := .error .needMoreData } :=
  receive_of_answer (by simp [step, h])

/-- As long as skipped pictures are due, the next of them is written. -/
theorem receive_of_skip {f : Filter} {packet : Packet} {run : SkipRun}
    (h : f.state = .holding packet run) (hRun : 0 < run.remaining) :
    f.receive = f.writeSkip packet run :=
  receive_of_answer (by simp [step, h, hRun])

/-- Behind the skipped pictures the packet itself is given out, by way of up to two transitions. -/
theorem receive_of_due {f : Filter} {packet : Packet} {run : SkipRun}
    (h : f.state = .holding packet run) (hRun : run.remaining = 0) :
    f.receive = f.deliver packet := by
  have hDone : ¬ 0 < run.remaining := by omega
  unfold deliver
  by_cases hAdjustment : 0 < f.adjustment
  · have hAdjusting : f.step = .next { f with state := .adjusting packet } := by
      simp [step, h, hDone, hAdjustment]
    rw [receive_of_next hAdjusting]
    by_cases hKey : packet.key
    · have hReleasing : Filter.step { f with state := .adjusting packet }
          = .next { f with state := .releasing packet, adjustment := 0, lastFrameNum := 0 } := by
        simp [step, hKey]
      rw [receive_of_next hReleasing, if_pos hKey]
      exact receive_of_answer (by simp [step, release, hKey])
    · rw [if_neg hKey, if_pos hAdjustment]
      exact receive_of_answer (by simp [step, renumber, hKey])
  · have hReleasing : f.step = .next { f with state := .releasing packet } := by
      simp [step, h, hDone, hAdjustment]
    have hZero : f.adjustment = 0 := by simpa using hAdjustment
    rw [receive_of_next hReleasing, receive_of_answer rfl, release]
    by_cases hKey : packet.key
    · simp [hKey, hZero]
    · simp [hKey, hAdjustment, release]

/-- What becomes of a packet that is due. -/
inductive Delivers (f : Filter) (packet : Packet) : Except Fault Packet → Filter → Prop
  /-- A key packet starts the numbering anew. -/
  | key (hKey : packet.key) :
      Delivers f packet (.ok packet) { f with state := .idle, adjustment := 0, lastFrameNum := 0 }
  /-- So does a packet with a refresh picture or without a slice, if numbers are being moved. -/
  | endOfGop {scan : Nal.Scan} (hKey : ¬ packet.key) (hAdjustment : f.adjustment ≠ 0)
      (hScan : Nal.scan f.setup.sets.framing packet.data = .ok scan)
      (hEnd : FrameNum.slices scan = [] ∨ ∃ span ∈ FrameNum.slices scan, span.type.isIdr) :
      Delivers f packet (.ok packet) { f with state := .idle, adjustment := 0, lastFrameNum := 0 }
  /-- The slices of any other packet are renumbered then. -/
  | renumbered {scan : Nal.Scan} {last : Nat} (hKey : ¬ packet.key) (hAdjustment : f.adjustment ≠ 0)
      (hScan : Nal.scan f.setup.sets.framing packet.data = .ok scan)
      (hSlices : FrameNum.slices scan ≠ [])
      (hIdr : ∀ span ∈ FrameNum.slices scan, ¬ span.type.isIdr)
      (hDone : (Renumbered.ofSlices f.setup.sets f.adjustment (FrameNum.slices scan) packet.data
        0).outcome.result = .ok (.done last)) :
      Delivers f packet
        (.ok { packet with
          data := (Renumbered.ofSlices f.setup.sets f.adjustment (FrameNum.slices scan) packet.data
            0).data })
        { f with state := .idle, lastFrameNum := last }
  /-- Otherwise the packet is only read. -/
  | released {number : Nat} (hKey : ¬ packet.key) (hAdjustment : f.adjustment = 0)
      (hNumber : (FrameNum.ofPacket f.setup.sets packet.data).result = .ok number) :
      Delivers f packet (.ok packet) { f with state := .idle, lastFrameNum := number }
  /-- A packet that cannot be read is lost. -/
  | lost {fault : Fault} (hKey : ¬ packet.key) (hFault : fault.InPacket) :
      Delivers f packet (.error fault) { f with state := .idle }

/-- Renumbering a packet is renumbering its slices, unless it starts the numbering anew. -/
theorem delivers_renumber {f : Filter} {packet : Packet} (hKey : ¬ packet.key)
    (hAdjustment : f.adjustment ≠ 0) :
    Delivers f packet (f.renumber packet).result (f.renumber packet).filter := by
  unfold renumber
  cases hScan : Nal.scan f.setup.sets.framing packet.data with
  | error fault =>
      rw [Renumbered.ofPacket_of_fault hScan]
      exact .lost hKey (.inl (Nal.category_of_scan hScan))
  | ok scan =>
      by_cases hAlone : Renumbered.LeftAlone scan
      · simp only [(Renumbered.ofPacket_of_leftAlone hScan hAlone).1]
        exact .endOfGop hKey hAdjustment hScan hAlone
      · obtain ⟨hOutcome, hData⟩ :=
          @Renumbered.ofPacket_of_not_leftAlone f.setup.sets f.adjustment _ _ hScan hAlone
        simp only [hOutcome, hData]
        cases hResult : (Renumbered.ofSlices f.setup.sets f.adjustment (FrameNum.slices scan)
            packet.data 0).outcome.result with
        | error fault =>
            exact .lost hKey (Renumbered.inPacket_of_ofSlices (FrameNum.slices_laid hScan) hResult)
        | ok renumbering =>
            obtain ⟨last, rfl⟩ := Renumbered.exists_done_of_ofSlices hResult
            obtain ⟨hSome, hIdr⟩ := Renumbered.not_leftAlone_iff.mp hAlone
            exact .renumbered hKey hAdjustment hScan hSome hIdr hResult

/-- While no numbers are moved, a packet is only read for its number. -/
theorem delivers_release {f : Filter} {packet : Packet} (hKey : ¬ packet.key)
    (hAdjustment : f.adjustment = 0) :
    Delivers f packet (f.release packet).result (f.release packet).filter := by
  unfold release
  rw [if_neg hKey]
  dsimp only
  cases hNumber : (FrameNum.ofPacket f.setup.sets packet.data).result with
  | error fault => exact .lost hKey (FrameNum.inPacket_of_ofPacket hNumber)
  | ok number => exact .released hKey hAdjustment hNumber

/-- Every packet that is due is given out in one of these ways, or it is lost. -/
theorem delivers (f : Filter) (packet : Packet) :
    Delivers f packet (f.deliver packet).result (f.deliver packet).filter := by
  unfold deliver
  by_cases hKey : packet.key
  · rw [if_pos hKey]
    exact .key hKey
  · by_cases hAdjustment : 0 < f.adjustment
    · rw [if_neg hKey, if_pos hAdjustment]
      exact delivers_renumber hKey (UInt32.pos_iff_ne_zero.mp hAdjustment)
    · rw [if_neg hKey, if_neg hAdjustment]
      exact delivers_release hKey (by simpa using hAdjustment)

/-- Giving out a packet leaves the filter idle, and changes neither its set-up nor the time of the
last packet. -/
theorem Delivers.frame {f after : Filter} {packet : Packet} {result : Except Fault Packet}
    (h : Delivers f packet result after) :
    after.state = .idle ∧ after.setup = f.setup ∧ after.lastDts = f.lastDts := by
  cases h <;> exact ⟨rfl, rfl, rfl⟩

/-- What one call of `receive` gives. -/
inductive Receives (f : Filter) : Except Fault Packet → Filter → Prop
  | drained (hState : f.state = .idle) : Receives f (.error .needMoreData) f
  | skip {packet skip : Packet} {run : SkipRun} (hState : f.state = .holding packet run)
      (hRun : 0 < run.remaining) (hSkip : f.setup.skip packet run = .ok skip) :
      Receives f (.ok skip) { f with state := .holding packet (run.next f.setup.duration) }
  /-- It cannot be written; the packet behind it is lost. -/
  | skipFault {packet : Packet} {run : SkipRun} {fault : Fault}
      (hState : f.state = .holding packet run) (hRun : 0 < run.remaining)
      (hSkip : f.setup.skip packet run = .error fault) :
      Receives f (.error fault) { f with state := .idle }
  | due {packet : Packet} {run : SkipRun} {result : Except Fault Packet} {after : Filter}
      (hState : f.state = .holding packet run) (hRun : run.remaining = 0)
      (hDelivers : Delivers f packet result after) : Receives f result after

/-- Between two calls, `receive` has no other outcomes than these. -/
theorem receives {f : Filter} (h : f.Settled) : Receives f f.receive.result f.receive.filter := by
  rcases h with hState | ⟨packet, run, hState⟩
  · rw [receive_of_idle hState]
    exact .drained hState
  · rcases Nat.eq_zero_or_pos run.remaining with hRun | hRun
    · rw [receive_of_due hState hRun]
      exact .due hState hRun (delivers f packet)
    · rw [receive_of_skip hState hRun, writeSkip]
      cases hSkip : f.setup.skip packet run with
      | error fault =>
          rw [Setup.skip] at hSkip
          rw [hSkip]
          exact .skipFault hState hRun hSkip
      | ok skip =>
          rw [Setup.skip] at hSkip
          rw [hSkip]
          exact .skip hState hRun hSkip

/-- A call of `receive` leaves the filter between two calls, with the same set-up. -/
theorem Receives.frame {f after : Filter} {result : Except Fault Packet}
    (h : Receives f result after) : after.Settled ∧ after.setup = f.setup := by
  cases h with
  | drained hState => exact ⟨.inl hState, rfl⟩
  | skip => exact ⟨.inr ⟨_, _, rfl⟩, rfl⟩
  | skipFault => exact ⟨.inl rfl, rfl⟩
  | due _ _ hDelivers => exact ⟨.inl hDelivers.frame.1, hDelivers.frame.2.1⟩

/-- A call of `send` leaves the filter between two calls, with the same set-up. -/
theorem send_frame {f : Filter} (h : f.Settled) (packet : Packet) :
    (f.send packet).filter.Settled ∧ (f.send packet).filter.setup = f.setup := by
  by_cases hState : f.state = .idle
  · rw [(send_of_idle hState packet).2]
    exact ⟨.inr ⟨_, _, rfl⟩, rfl⟩
  · rw [send_of_busy hState]
    exact ⟨h, rfl⟩

/-- However long a gap is, no more than 1000 pictures are planned for it. -/
theorem plan_remaining_le (f : Filter) (packet : Packet) : (f.plan packet).remaining ≤ 1000 := by
  unfold plan
  split
  · exact Nat.zero_le _
  · split
    case isTrue hGap =>
      have hMax : maxGap.toInt = 1000 := rfl
      have hLe := Int64.le_iff_toInt_le.mp hGap.2
      show (f.gap packet.dts).toInt.toNat ≤ 1000
      omega
    case isFalse => exact Nat.zero_le _

/-- Planned pictures are added to the adjustment, modulo the range of 32-bit numbers. -/
theorem adjustment_accept (f : Filter) (packet : Packet) :
    (f.accept packet).adjustment.toNat
      = (f.adjustment.toNat + (f.plan packet).remaining) % 2 ^ 32 := by
  rw [accept, UInt32.toNat_add, UInt32.toNat_ofNat', Nat.add_mod_mod]

/-- A skipped picture has the times of the run, and belongs to the stream of the packet. -/
theorem Setup.skip_eq_ok {setup : Setup} {packet skip : Packet} {run : SkipRun}
    (h : setup.skip packet run = .ok skip) :
    ∃ data, setup.skipFrame.data run.nextFrameNum = .ok data ∧
      skip = { data, pts := run.nextDts, dts := run.nextDts, duration := setup.duration,
               timeBase := setup.timeBase, stream := packet.stream } := by
  obtain ⟨data, hData, h⟩ := except_bind_eq_ok.mp h
  cases h
  exact ⟨data, hData, rfl⟩

/-- A skipped picture can only be too long for its length field. -/
theorem Setup.skip_eq_error {setup : Setup} {packet : Packet} {run : SkipRun} {fault : Fault}
    (h : setup.skip packet run = .error fault) : ∃ length size, fault = .nalTooLong length size := by
  rcases except_bind_eq_error.mp h with h | ⟨_, _, h⟩
  · rcases except_bind_eq_error.mp h with h | ⟨_, _, h⟩
    · unfold Nal.Framing.header at h
      split at h
      case h_1 => cases h
      case h_2 =>
        split at h <;> cases h
        exact ⟨_, _, rfl⟩
    · cases h
  · cases h

end Filter

end Cadence
