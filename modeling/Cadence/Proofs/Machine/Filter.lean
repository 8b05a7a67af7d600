import Cadence.Proofs.Filter.Bounded
import Cadence.Proofs.Machine.SkipFrame
import Cadence.Proofs.Machine.SliceHeader

/-!
The filter on a machine. Every call is computed in words, with the rounds of its loops counted, and gives
what it gives on numbers without a width (`serveAll_eq_of_create`): a filter that has been created never
meets a hazard, whatever packets it is given and in whatever order it is called.
-/

namespace Cadence

namespace Filter

/-- What can be asked of a filter. -/
inductive Request
  | send (packet : Packet)
  | receive
  | drain (packet : Packet)

/-- What is given in reply. -/
inductive Reply
  | sent (result : Except Fault Unit)
  | received (result : Except Fault Packet)
  | drained (result : Except Fault (List Packet))

/-- The data that comes with a request is small. -/
def Request.Small : Request → Prop
  | .send packet | .drain packet => Filter.Small packet.data
  | .receive => True

instance : (request : Request) → Decidable request.Small
  | .send packet | .drain packet => inferInstanceAs (Decidable (Filter.Small packet.data))
  | .receive => isTrue trivial

def serve (f : Filter) : Request → Filter × Reply
  | .send packet => ((f.send packet).filter, .sent (f.send packet).result)
  | .receive => (f.receive.filter, .received f.receive.result)
  | .drain packet => ((f.drain packet).filter, .drained (f.drain packet).result)

/-- Requests one after the other, each to the filter that the one before has left. -/
def serveAll (f : Filter) : List Request → Filter × List Reply
  | [] => (f, [])
  | request :: requests =>
    let (after, reply) := f.serve request
    let (last, replies) := after.serveAll requests
    (last, reply :: replies)

end Filter

namespace Machine

open Cadence.Filter

/-- Frame numbers are counted on in a word of 32 bits, beyond the end of which they start at zero. -/
def nextNumber (number : Nat) : Nat :=
  (number + 1) % 2 ^ 32

def gap (f : Filter) (dts : Ticks) : Machine Ticks := do
  let half ← divide f.setup.duration 2
  divide (Ticks.addSat (Ticks.subSat dts f.expectedDts) half) f.setup.duration

def send (f : Filter) (packet : Packet) : Machine (Filter × Except Fault Unit) := do
  if !f.isIdle then return (f, .error (.notDrained f.setup.label))
  let held := { f with lastDts := packet.dts, state := .holding packet {} }
  if f.lastDts = Ticks.unset ∨ packet.dts = Ticks.unset then return (held, .ok ())
  let gap ← gap f packet.dts
  if maxGap < gap then return (held, .ok ())
  if 0 < gap then
    let run : SkipRun := ⟨gap.toInt.toNat, f.expectedDts, nextNumber f.lastFrameNum⟩
    let adjustment := f.adjustment + UInt32.ofNat run.remaining
    return ({ held with adjustment, state := .holding packet run }, .ok ())
  return (held, .ok ())

/-- One transition: to the next one, or to a packet that is given out. -/
def transition (f : Filter) : Machine (Filter ⊕ (Filter × Packet)) :=
  match f.state with
  | .idle => ofExcept (.error .needMoreData)
  | .holding packet run => do
    if 0 < run.remaining then
      let skip ← buildPacket f.setup.skipFrame run.nextFrameNum run.nextDts f.setup.duration
        f.setup.timeBase packet.stream
      let rest : SkipRun := ⟨← sub run.remaining 1, Ticks.addSat run.nextDts f.setup.duration,
        nextNumber run.nextFrameNum⟩
      return .inr ({ f with state := .holding packet rest }, skip)
    if 0 < f.adjustment then return .inl { f with state := .adjusting packet }
    return .inl { f with state := .releasing packet }
  | .adjusting packet => do
    if packet.key then
      return .inl { f with state := .releasing packet, adjustment := 0, lastFrameNum := 0 }
    match ← patchFrameNum f.setup.sets f.adjustment packet.data with
    | (_, .endOfGop) =>
      return .inr ({ f with state := .idle, adjustment := 0, lastFrameNum := 0 }, packet)
    | (data, .done last) =>
      return .inr ({ f with state := .idle, lastFrameNum := last }, { packet with data })
  | .releasing packet => do
    let number ← if packet.key then pure 0 else parseFrameNum f.setup.sets packet.data
    return .inr ({ f with state := .idle, lastFrameNum := number }, packet)

/-- A fault is reported, and the packet that was held is lost. -/
def receiveRound (f : Filter) : Machine (Filter ⊕ (Filter × Except Fault Packet)) :=
  match transition f with
  | .ok (.inl next) => .ok (.inl next)
  | .ok (.inr (after, packet)) => .ok (.inr (after, .ok packet))
  | .error (.fault fault) => .ok (.inr ({ f with state := .idle }, .error fault))
  | .error (.hazard hazard) => stop hazard

/-- At most three transitions are made. -/
def receive (f : Filter) : Machine (Filter × Except Fault Packet) :=
  loop receiveRound 3 f

def drainRound : Filter × List Packet →
    Machine (Filter × List Packet ⊕ Filter × Except Fault (List Packet))
  | (f, packets) => do
    match ← receive f with
    | (after, .ok packet) => return .inl (after, packets ++ [packet])
    | (after, .error .needMoreData) => return .inr (after, .ok packets)
    | (after, .error fault) => return .inr (after, .error fault)

/-- Besides the skipped pictures that were planned for the packet, at most two packets are asked for. -/
def drain (f : Filter) (packet : Packet) : Machine (Filter × Except Fault (List Packet)) := do
  match ← send f packet with
  | (after, .error fault) => return (after, .error fault)
  | (after, .ok ()) => loop drainRound (after.pending.remaining + 2) (after, [])

def serve (f : Filter) : Request → Machine (Filter × Reply)
  | .send packet => do
    let (after, result) ← send f packet
    return (after, .sent result)
  | .receive => do
    let (after, result) ← receive f
    return (after, .received result)
  | .drain packet => do
    let (after, result) ← drain f packet
    return (after, .drained result)

def serveAll (f : Filter) : List Request → Machine (Filter × List Reply)
  | [] => return (f, [])
  | request :: requests => do
    let (after, reply) ← serve f request
    let (last, replies) ← serveAll after requests
    return (last, reply :: replies)

variable {f : Filter} {packet : Packet}

section Send

theorem nextNumber_of_lt {number : Nat} (h : number < 2 ^ 17) : nextNumber number = number + 1 :=
  Nat.mod_eq_of_lt (by omega)

/-- The gap is computed on words as on integers, saturation included. -/
theorem gap_eq (f : Filter) (dts : Ticks) : gap f dts = .ok (f.gap dts) := by
  have hTwo : (0 : Ticks) < 2 := by decide
  rw [gap, divide_of_pos hTwo, ok_bind, divide_of_pos f.setup.duration_pos, Filter.gap]

/-- The wrapping successor is the successor, as remembered numbers are small. -/
theorem send_eq (h : f.Bounded) (packet : Packet) :
    send f packet = .ok ((f.send packet).filter, (f.send packet).result) := by
  have hNumber := h.number
  rw [send, Filter.send, gap_eq, nextNumber_of_lt (by omega)]
  by_cases hIdle : f.isIdle = true
  · simp only [hIdle, Bool.not_true, Bool.false_eq_true, if_false]
    by_cases hUnset : f.lastDts = Ticks.unset ∨ packet.dts = Ticks.unset
    · rw [if_pos hUnset, if_pos hUnset]
      rfl
    · rw [if_neg hUnset, if_neg hUnset, ok_bind]
      by_cases hBroken : maxGap < f.gap packet.dts
      · rw [if_pos hBroken, if_pos hBroken]
        rfl
      · rw [if_neg hBroken, if_neg hBroken]
        by_cases hGap : 0 < f.gap packet.dts
        · rw [if_pos hGap, if_pos hGap]
          rfl
        · rw [if_neg hGap, if_neg hGap]
          rfl
  · simp only [hIdle, Bool.not_false, if_true]
    rfl

end Send

section Receive

/-- A round of a call does what one transition of the filter does. -/
abbrev ReceiveRounds (f : Filter) : Prop :=
  Rounds receiveRound Bounded (fun f => f.state.rank)
    (fun f => .ok (f.receive.filter, f.receive.result)) f

/-- A transition to another state is one round of the loop, and leads on to the rest of the call. -/
theorem rounds_of_next {g : Filter} (h : f.Bounded) (hStep : f.step = .next g)
    (hTransition : transition f = .ok (.inl g)) : ReceiveRounds f := by
  have hRound : receiveRound f = .ok (.inl g) := by rw [receiveRound, hTransition]
  exact .next hRound (h.step hStep) (rank_lt_of_step hStep) (by rw [receive_of_next hStep])

/-- A transition to an answer ends the call. If the answer is a fault, the filter has lost its packet and
nothing else. -/
theorem rounds_of_answer {answer : Answer Packet} (hStep : f.step = .answer answer)
    (hTransition : transition f
      = ofExcept (answer.result.map fun packet => .inr (answer.filter, packet)))
    (hLost : ∀ fault, answer.result = .error fault → answer.filter = { f with state := .idle }) :
    ReceiveRounds f := by
  have hRound : receiveRound f = .ok (.inr (answer.filter, answer.result)) := by
    rw [receiveRound, hTransition]
    cases hResult : answer.result with
    | error fault =>
        rw [hLost fault hResult]
        rfl
    | ok packet => rfl
  exact .done hRound (by rw [receive_of_answer hStep])

/-- A transition of a held packet with skipped pictures before it writes the next of them, and fails
as that does. -/
theorem transition_writeSkip (h : f.Bounded) {run : SkipRun} (hState : f.state = .holding packet run)
    (hRun : 0 < run.remaining) :
    transition f = ofExcept ((f.writeSkip packet run).result.map fun skip =>
      .inr ((f.writeSkip packet run).filter, skip)) := by
  obtain ⟨_, hAdmitted, hSlice⟩ := h.setup
  have hHeld := h.state
  rw [hState] at hHeld
  obtain ⟨_, hNumbers⟩ := hHeld
  rw [transition, hState]
  dsimp only
  rw [if_pos hRun, buildPacket_eq hAdmitted.pps hAdmitted.sps hAdmitted.frames hSlice, writeSkip,
    sub_of_le hRun, nextNumber_of_lt (by omega)]
  cases f.setup.skipFrame.packet run.nextFrameNum run.nextDts f.setup.duration f.setup.timeBase
    packet.stream <;> rfl

/-- A transition of a packet whose number is to be moved renumbers its slices in place, and fails as
that does. -/
theorem transition_renumber (hState : f.state = .adjusting packet) (hKey : ¬ packet.key)
    (hPacket : Filter.Small packet.data) :
    transition f = ofExcept ((f.renumber packet).result.map fun given =>
      .inr ((f.renumber packet).filter, given)) := by
  rw [transition, hState]
  dsimp only
  rw [if_neg hKey, patchFrameNum_eq _ _ hPacket, renumber]
  cases (Renumbered.ofPacket f.setup.sets f.adjustment packet.data).outcome.result with
  | error fault => rfl
  | ok renumbering => cases renumbering <;> rfl

/-- A transition of a packet that goes through reads its number, and fails as that does. -/
theorem transition_release (hState : f.state = .releasing packet) (hPacket : Filter.Small packet.data) :
    transition f = ofExcept ((f.release packet).result.map fun given =>
      .inr ((f.release packet).filter, given)) := by
  rw [transition, hState]
  dsimp only
  rw [parseFrameNum_eq _ hPacket, release]
  by_cases hKey : packet.key
  · rw [if_pos hKey, if_pos hKey]
    rfl
  · rw [if_neg hKey, if_neg hKey]
    dsimp only
    cases (FrameNum.ofPacket f.setup.sets packet.data).result <;> rfl

section Lost

variable {fault : Fault}

/-- A skipped picture that cannot be written leaves the filter idle. -/
theorem writeSkip_of_error {run : SkipRun} (h : (f.writeSkip packet run).result = .error fault) :
    (f.writeSkip packet run).filter = { f with state := .idle } := by
  unfold writeSkip at h ⊢
  split
  case h_1 => rfl
  case h_2 hSkip =>
    rw [hSkip] at h
    cases h

/-- A packet that cannot be renumbered leaves the filter idle. -/
theorem renumber_of_error (h : (f.renumber packet).result = .error fault) :
    (f.renumber packet).filter = { f with state := .idle } := by
  unfold renumber at h ⊢
  dsimp only at h ⊢
  split
  case h_1 => rfl
  all_goals
    rename_i hDone
    rw [hDone] at h
    cases h

/-- A packet that cannot be read leaves the filter idle. -/
theorem release_of_error (h : (f.release packet).result = .error fault) :
    (f.release packet).filter = { f with state := .idle } := by
  unfold release at h ⊢
  split
  case isTrue hKey =>
    rw [if_pos hKey] at h
    cases h
  case isFalse hKey =>
    rw [if_neg hKey] at h
    dsimp only at h ⊢
    split
    case h_1 => rfl
    case h_2 hNumber =>
      rw [hNumber] at h
      cases h

end Lost

/-- A held packet is answered with its next skipped picture, or goes on to be given out itself. -/
theorem rounds_holding (h : f.Bounded) {run : SkipRun} (hState : f.state = .holding packet run) :
    ReceiveRounds f := by
  by_cases hRun : 0 < run.remaining
  · have hStep : f.step = .answer (f.writeSkip packet run) := by
      rw [Filter.step, hState]
      exact if_pos hRun
    exact rounds_of_answer hStep (transition_writeSkip h hState hRun)
      fun _ hFault => writeSkip_of_error hFault
  · have hTransition : transition f = .ok (.inl (if 0 < f.adjustment then
        { f with state := .adjusting packet } else { f with state := .releasing packet })) := by
      rw [transition, hState]
      dsimp only
      rw [if_neg hRun]
      split <;> rfl
    refine rounds_of_next h ?_ hTransition
    rw [Filter.step, hState]
    dsimp only
    rw [if_neg hRun]
    split <;> rfl

/-- A packet to be renumbered is given out with its new number, and a key packet goes on to be
released. -/
theorem rounds_adjusting (h : f.Bounded) (hState : f.state = .adjusting packet) :
    ReceiveRounds f := by
  have hPacket := h.state
  rw [hState] at hPacket
  by_cases hKey : packet.key
  · have hStep : f.step
        = .next { f with state := .releasing packet, adjustment := 0, lastFrameNum := 0 } := by
      rw [Filter.step, hState]
      exact if_pos hKey
    refine rounds_of_next h hStep ?_
    rw [transition, hState]
    exact if_pos hKey
  · have hStep : f.step = .answer (f.renumber packet) := by
      rw [Filter.step, hState]
      exact if_neg hKey
    exact rounds_of_answer hStep (transition_renumber hState hKey hPacket)
      fun _ hFault => renumber_of_error hFault

/-- The rounds of a call follow the transitions from every state that it can go through. -/
theorem rounds_receive (h : f.Bounded) : ReceiveRounds f := by
  cases hState : f.state with
  | idle =>
      have hStep : f.step = .answer { filter := f, result := .error .needMoreData } := by
        rw [Filter.step, hState]
      refine rounds_of_answer hStep ?_ fun _ _ => hState ▸ rfl
      rw [transition, hState]
      rfl
  | holding packet run => exact rounds_holding h hState
  | adjusting packet => exact rounds_adjusting h hState
  | releasing packet =>
      have hPacket := h.state
      rw [hState] at hPacket
      have hStep : f.step = .answer (f.release packet) := by rw [Filter.step, hState]
      exact rounds_of_answer hStep (transition_release hState hPacket)
        fun _ hFault => release_of_error hFault

/-- The loop of a call of `receive` meets no hazard, and answers as the filter on integers does. -/
theorem receive_eq (h : f.Bounded) : receive f = .ok (f.receive.filter, f.receive.result) := by
  have hRank : f.state.rank < 3 := by cases f.state <;> simp [State.rank]
  exact loop_eq (fun f hBounded => rounds_receive hBounded) h hRank

end Receive

section Drain

/-- A round of draining takes one packet out, or is the last one. -/
theorem rounds_drain {state : Filter × List Packet} (h : state.1.Bounded ∧ state.1.Settled) :
    Rounds drainRound (fun state => state.1.Bounded ∧ state.1.Settled)
      (fun state => state.1.state.load)
      (fun state => .ok (state.1.receiveAll.filter, state.1.receiveAll.result.map (state.2 ++ ·)))
      state := by
  obtain ⟨f, packets⟩ := state
  have hReceive := receive_eq h.1
  have hReceives := receives h.2
  cases hResult : f.receive.result with
  | ok packet =>
      obtain ⟨hAll, hFilter⟩ := receiveAll_of_ok hResult
      have hRound : drainRound (f, packets)
          = .ok (.inl (f.receive.filter, packets ++ [packet])) := by
        rw [drainRound, hReceive, hResult]
        rfl
      refine .next hRound ⟨h.1.receives hReceives, hReceives.frame.1⟩ (load_lt_of_receive hResult) ?_
      rw [hFilter, hAll]
      cases f.receive.filter.receiveAll.result <;> simp [Except.map]
  | error fault =>
      by_cases hDone : fault = .needMoreData
      · subst hDone
        obtain ⟨hAll, hFilter⟩ := receiveAll_of_needMoreData hResult
        have hRound : drainRound (f, packets) = .ok (.inr (f.receive.filter, .ok packets)) := by
          rw [drainRound, hReceive, hResult]
          rfl
        refine .done hRound ?_
        rw [hFilter, hAll, Except.map, List.append_nil]
      · obtain ⟨hAll, hFilter⟩ := receiveAll_of_error hResult hDone
        have hRound : drainRound (f, packets) = .ok (.inr (f.receive.filter, .error fault)) := by
          rw [drainRound, hReceive, hResult, ok_bind]
          split
          case h_1 hOther => cases hOther
          case h_2 hOther =>
            cases hOther
            exact absurd rfl hDone
          case h_3 hOther =>
            cases hOther
            rfl
        refine .done hRound ?_
        rw [hFilter, hAll, Except.map]

theorem load_accept (f : Filter) (packet : Packet) :
    (f.accept packet).state.load < (f.accept packet).pending.remaining + 2 :=
  Nat.lt_succ_self _

/-- Draining meets no hazard either, as the number of pictures planned bounds the rounds of its
loop. -/
theorem drain_eq (h : f.Bounded) (hPacket : Filter.Small packet.data) :
    drain f packet = .ok ((f.drain packet).filter, (f.drain packet).result) := by
  by_cases hState : f.state = .idle
  · obtain ⟨hSent, hAccept⟩ := send_of_idle hState packet
    have hFirst : (f.accept packet).Bounded ∧ (f.accept packet).Settled :=
      ⟨h.accept hPacket, .inr ⟨_, _, rfl⟩⟩
    have hLoop : loop drainRound ((f.accept packet).pending.remaining + 2) (f.accept packet, [])
        = .ok ((f.accept packet).receiveAll.filter,
            (f.accept packet).receiveAll.result.map ([] ++ ·)) :=
      loop_eq (fun _ => rounds_drain) hFirst (load_accept f packet)
    rw [drain, send_eq h, ok_bind, hSent, Filter.drain, hSent, hAccept]
    dsimp only
    rw [hLoop]
    cases (f.accept packet).receiveAll.result <;> rfl
  · rw [drain, send_eq h, ok_bind, drain_of_busy hState, send_of_busy hState]
    rfl

end Drain

section Serve

/-- A request is answered as it is without limits, and leaves the filter ready for the next one. -/
theorem serve_eq (h : f.Bounded) (hSettled : f.Settled) {request : Request} (hSmall : request.Small) :
    serve f request = .ok (f.serve request) ∧ (f.serve request).1.Bounded ∧
      (f.serve request).1.Settled := by
  cases request with
  | send packet =>
      rw [serve, send_eq h]
      exact ⟨rfl, h.send hSmall, (send_frame hSettled packet).1⟩
  | receive =>
      rw [serve, receive_eq h]
      exact ⟨rfl, h.receives (receives hSettled), (receives hSettled).frame.1⟩
  | drain packet =>
      rw [serve, drain_eq h hSmall]
      exact ⟨rfl, h.drain packet, drain_settled hSettled packet⟩

/-- Any requests are served on words as on integers, as long as their packets are small. -/
theorem serveAll_eq (h : f.Bounded) (hSettled : f.Settled) {requests : List Request}
    (hSmall : ∀ request ∈ requests, request.Small) :
    serveAll f requests = .ok (f.serveAll requests) := by
  induction requests generalizing f with
  | nil => rfl
  | cons request requests ih =>
      obtain ⟨hHead, hTail⟩ := List.forall_mem_cons.mp hSmall
      obtain ⟨hServe, hBounded, hAfter⟩ := serve_eq h hSettled hHead
      rw [serveAll, hServe, ok_bind, Filter.serveAll]
      generalize f.serve request = served at hBounded hAfter
      obtain ⟨after, reply⟩ := served
      dsimp only
      rw [ih hBounded hAfter hTail]
      rfl

/-- A filter that has been created meets no hazard: no number leaves its word, nothing is shifted too far,
divided by zero or sought outside the data, and all loops end in time. -/
theorem serveAll_eq_of_create {info : StreamInfo} {timeBase frameRate : Rational}
    {templates : TemplateTable} {requests : List Request}
    (hCreate : (create info timeBase frameRate templates).result = .ok f)
    (hTemplates : ∀ size data, templates.lookup size = some data → Filter.Small data)
    (hSmall : ∀ request ∈ requests, request.Small) :
    serveAll f requests = .ok (f.serveAll requests) := by
  have hFresh : f.Settled := .inl (by rw [(checked_of_create hCreate).1, start])
  exact serveAll_eq (bounded_of_create hCreate hTemplates) hFresh hSmall

/-- A gap is filled, a slice is cut off, a packet is empty, and times jump from one end of their range to
the other. -/
def sampleRequests : List Request :=
  [.drain (sampleKey 0), .send (samplePicture 1 10800), .drain {}, .receive, .receive, .receive,
    .drain { data := [0, 0, 0, 1, 0x61], dts := 18000 }, .drain { dts := Int64.minValue + 1 },
    .drain (samplePicture 2 Int64.maxValue)]

/-- The requests of the sample are small, and served alike. -/
theorem serveAll_eq_of_create_sample :
    (∀ request ∈ sampleRequests, request.Small) ∧
      serveAll sample sampleRequests = .ok (sample.serveAll sampleRequests) := by
  have hTemplates : ∀ size data, ([] : TemplateTable).lookup size = some data →
      Filter.Small data := by
    intro size data hLookup
    cases hLookup
  have hSmall : ∀ request ∈ sampleRequests, request.Small := by decide
  exact ⟨hSmall, serveAll_eq_of_create create_sample hTemplates hSmall⟩

end Serve

end Machine

end Cadence
