import Cadence.Filter.Basic

/-!
Sending packets to the filter and receiving packets from it. After each packet sent, packets are
received until the filter wants the next one; `drain` does so for one packet.
-/

namespace Cadence

namespace Filter

/-- When the packet after the last one is expected. -/
def expectedDts (f : Filter) : Ticks :=
  Ticks.addSat f.lastDts f.setup.duration

/-- The number of pictures missing before a packet at `dts`, rounded to the nearest one. -/
def gap (f : Filter) (dts : Ticks) : Ticks :=
  Ticks.addSat (Ticks.subSat dts f.expectedDts) (f.setup.duration / 2) / f.setup.duration

/-- Takes a packet, and plans the skipped pictures that go before it. -/
def send (f : Filter) (packet : Packet) : Answer Unit :=
  if !f.isIdle then
    { filter := f, result := .error (.notDrained f.setup.label) }
  else
    let held : Filter := { f with lastDts := packet.dts, state := .holding packet {} }
    if f.lastDts = Ticks.unset ∨ packet.dts = Ticks.unset then
      { filter := held, result := .ok () }
    else
      let gap := f.gap packet.dts
      if gap > maxGap then
        { filter := held, result := .ok (),
          events := [.streamBroken f.setup.label gap ⟨f.expectedDts, f.setup.timeBase⟩
            ⟨packet.dts, f.setup.timeBase⟩] }
      else if gap > 0 then
        let run : SkipRun := ⟨gap.toInt.toNat, f.expectedDts, f.lastFrameNum + 1⟩
        let adjustment := f.adjustment + UInt32.ofNat run.remaining
        { filter := { held with adjustment, state := .holding packet run }, result := .ok (),
          events := [.gapFound f.setup.label gap run.nextDts run.nextFrameNum adjustment] }
      else
        { filter := held, result := .ok () }

/-- What one transition leads to. -/
inductive Transition
  /-- Another transition follows. -/
  | next (filter : Filter)
  | answer (answer : Answer Packet)

/-- Writes the first skipped picture of a run. -/
def writeSkip (f : Filter) (packet : Packet) (run : SkipRun) : Answer Packet :=
  match f.setup.skipFrame.packet run.nextFrameNum run.nextDts f.setup.duration f.setup.timeBase
    packet.stream with
  | .error fault => { filter := { f with state := .idle }, result := .error fault }
  | .ok skip =>
    let rest : SkipRun :=
      ⟨run.remaining - 1, Ticks.addSat run.nextDts f.setup.duration, run.nextFrameNum + 1⟩
    { filter := { f with state := .holding packet rest }, result := .ok skip,
      events := [.skipWritten f.setup.label run.nextDts run.nextFrameNum] }

/-- Renumbers a packet that is not marked as a key packet, and gives it back. A refresh picture ends
the renumbering. -/
def renumber (f : Filter) (packet : Packet) : Answer Packet :=
  let renumbered := Renumbered.ofPacket f.setup.sets f.adjustment packet.data
  let events := renumbered.outcome.events
  match renumbered.outcome.result with
  | .error fault => { filter := { f with state := .idle }, result := .error fault, events }
  | .ok .endOfGop =>
    { filter := { f with state := .idle, adjustment := 0, lastFrameNum := 0 }, result := .ok packet,
      events := events ++ [.unmarkedRefresh f.setup.label] }
  | .ok (.done last) =>
    { filter := { f with state := .idle, lastFrameNum := last },
      result := .ok { packet with data := renumbered.data }, events }

/-- Gives a packet back as it is, and remembers its frame number. -/
def release (f : Filter) (packet : Packet) : Answer Packet :=
  if packet.key then
    { filter := { f with state := .idle, lastFrameNum := 0 }, result := .ok packet }
  else
    let read := FrameNum.ofPacket f.setup.sets packet.data
    match read.result with
    | .error fault =>
      { filter := { f with state := .idle }, result := .error fault, events := read.events }
    | .ok frameNum =>
      { filter := { f with state := .idle, lastFrameNum := frameNum }, result := .ok packet,
        events := read.events }

def step (f : Filter) : Transition :=
  match f.state with
  | .idle => .answer { filter := f, result := .error .needMoreData }
  | .holding packet run =>
    if 0 < run.remaining then .answer (f.writeSkip packet run)
    else if 0 < f.adjustment then .next { f with state := .adjusting packet }
    else .next { f with state := .releasing packet }
  | .adjusting packet =>
    if packet.key then
      .next { f with state := .releasing packet, adjustment := 0, lastFrameNum := 0 }
    else .answer (f.renumber packet)
  | .releasing packet => .answer (f.release packet)

/-- Every transition that is not an answer comes closer to one. -/
theorem rank_lt_of_step {f g : Filter} (h : f.step = .next g) : g.state.rank < f.state.rank := by
  unfold step at h
  split at h
  case h_1 => contradiction
  case h_2 hState =>
    rw [hState]
    repeat' split at h
    all_goals cases h
    all_goals simp [State.rank]
  case h_3 hState =>
    rw [hState]
    split at h <;> cases h
    simp [State.rank]
  case h_4 => contradiction

/-- Takes one packet out of the filter. If that fails, the packet that was sent is lost. -/
def receive (f : Filter) : Answer Packet :=
  match h : f.step with
  | .answer answer => answer
  | .next g =>
    have := rank_lt_of_step h
    receive g
termination_by f.state.rank

private theorem load_le_of_step {f g : Filter} (h : f.step = .next g) :
    g.state.load ≤ f.state.load := by
  unfold step at h
  split at h
  case h_1 => contradiction
  case h_2 hState =>
    rw [hState]
    repeat' split at h
    all_goals cases h
    all_goals simp [State.load]
  case h_3 hState =>
    rw [hState]
    split at h <;> cases h
    simp [State.load]
  case h_4 => contradiction

private theorem load_writeSkip {f : Filter} {packet : Packet} {run : SkipRun} {skip : Packet}
    (hRun : 0 < run.remaining) (h : (f.writeSkip packet run).result = .ok skip) :
    (f.writeSkip packet run).filter.state.load < run.remaining + 1 := by
  unfold writeSkip at h ⊢
  cases hSkip : f.setup.skipFrame.packet run.nextFrameNum run.nextDts f.setup.duration
    f.setup.timeBase packet.stream with
  | error fault => simp [hSkip] at h
  | ok skip => simp [State.load]; omega

private theorem load_renumber (f : Filter) (packet : Packet) :
    (f.renumber packet).filter.state.load = 0 := by
  unfold renumber
  dsimp only
  split <;> rfl

private theorem load_release (f : Filter) (packet : Packet) :
    (f.release packet).filter.state.load = 0 := by
  unfold release
  split
  · rfl
  · dsimp only
    split <;> rfl

private theorem load_lt_of_answer {f : Filter} {answer : Answer Packet} {packet : Packet}
    (h : f.step = .answer answer) (hOk : answer.result = .ok packet) :
    answer.filter.state.load < f.state.load := by
  unfold step at h
  split at h
  case h_1 => cases h; contradiction
  case h_2 hState =>
    rw [hState]
    split at h
    case isTrue hRun => cases h; exact load_writeSkip hRun hOk
    case isFalse => split at h <;> cases h
  case h_3 held hState =>
    rw [hState]
    split at h <;> cases h
    rw [load_renumber]
    exact Nat.one_pos
  case h_4 held hState =>
    rw [hState]
    cases h
    rw [load_release]
    exact Nat.one_pos

/-- Each packet that is received leaves fewer to receive. -/
theorem load_lt_of_receive {f : Filter} {packet : Packet} (h : f.receive.result = .ok packet) :
    f.receive.filter.state.load < f.state.load := by
  fun_induction receive f with
  | case1 f answer hStep => exact load_lt_of_answer hStep h
  | case2 f g hStep _ ih => exact Nat.lt_of_lt_of_le (ih h) (load_le_of_step hStep)

/-- Receives packets until the next one has to be sent. After a fault, the packets received before
it are lost. -/
def receiveAll (f : Filter) : Answer (List Packet) :=
  let first := f.receive
  match h : first.result with
  | .error .needMoreData => { first with result := .ok [] }
  | .error fault => { first with result := .error fault }
  | .ok packet =>
    have := load_lt_of_receive h
    let rest := receiveAll first.filter
    { rest with
      result := rest.result.map (packet :: ·), events := first.events ++ rest.events }
termination_by f.state.load

/-- Sends a packet and receives all that comes out for it. -/
def drain (f : Filter) (packet : Packet) : Answer (List Packet) :=
  let sent := f.send packet
  match sent.result with
  | .error fault => { sent with result := .error fault }
  | .ok () =>
    let rest := sent.filter.receiveAll
    { rest with events := sent.events ++ rest.events }

end Filter

end Cadence
