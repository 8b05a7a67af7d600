import Cadence.Proofs.Filter.Created
import Cadence.Proofs.Filter.Drain

/-!
What a filter gives out under any sequence of calls. Each packet that is taken becomes one delivery: its
skipped pictures in order, and then the packet itself, with nothing changed but frame numbers. Only the
last delivery can be unfinished, and one that ran into a fault.
-/

namespace Cadence

/-- A bit of a packet belongs to the frame number of one of its slices outside refresh pictures. -/
def FrameNum.Holds (sets : ParameterSets) (data : Bytes) (index : Nat) : Prop :=
  ∃ scan, Nal.scan sets.framing data = .ok scan ∧
    Covers sets data ((slices scan).filter fun span => !span.type.isIdr) index

namespace Filter

inductive Call
  | send (packet : Packet)
  | receive

/-- A call, with the filter before it and what came of it. -/
inductive Turn
  | sent (before : Filter) (packet : Packet) (answer : Answer Unit)
  | received (before : Filter) (answer : Answer Packet)

namespace Turn

def after : Turn → Filter
  | .sent _ _ answer => answer.filter
  | .received _ answer => answer.filter

def accepted : Turn → Option Packet
  | .sent _ packet answer => answer.result.toOption.map fun _ => packet
  | .received _ _ => none

def given : Turn → Option Packet
  | .sent _ _ _ => none
  | .received _ answer => answer.result.toOption

end Turn

def turn (f : Filter) : Call → Turn
  | .send packet => .sent f packet (f.send packet)
  | .receive => .received f f.receive

/-- Calls one after the other, each on the filter that the one before has left. -/
def turns (f : Filter) : List Call → List Turn
  | [] => []
  | call :: calls => f.turn call :: (f.turn call).after.turns calls

/-- Whatever is called, the filter is left between two calls, with the same set-up. -/
theorem turn_frame {f : Filter} (h : f.Settled) (call : Call) :
    (f.turn call).after.Settled ∧ (f.turn call).after.setup = f.setup := by
  cases call with
  | send packet => exact send_frame h packet
  | receive => exact (receives h).frame

/-- A packet that was taken, and what has been given out for it. -/
structure Delivery where
  packet : Packet
  /-- The skipped pictures that were pending when the packet had been taken. -/
  run : SkipRun
  received : List Packet := []
  /-- The adjustment at the last call that gave something out. -/
  adjustment : UInt32 := 0
  fault : Option Fault := none

namespace Delivery

/-- Goes through calls in their order. The delivery at the head is the one that is open. -/
def record (deliveries : List Delivery) : Turn → List Delivery
  | .sent _ packet answer =>
    match answer.result with
    | .ok () => { packet, run := answer.filter.pending } :: deliveries
    | .error _ => deliveries
  | .received before answer =>
    match deliveries, answer.result with
    | [], _ => []
    | delivery :: rest, .ok out =>
      { delivery with
        received := delivery.received ++ [out], adjustment := before.adjustment } :: rest
    | deliveries, .error .needMoreData => deliveries
    | delivery :: rest, .error fault => { delivery with fault := some fault } :: rest

/-- All that was scheduled has been given out, and the packet. -/
def Complete (delivery : Delivery) : Prop :=
  delivery.received.length = delivery.run.remaining + 1

/-- A skipped picture that stands in for one before the packet. -/
structure Skipped (setup : Setup) (packet skip : Packet) : Prop where
  stream : skip.stream = packet.stream
  timeBase : skip.timeBase = setup.timeBase
  duration : skip.duration = setup.duration
  times : skip.pts = skip.dts
  noFlags : skip.key = false ∧ skip.corrupt = false

/-- A packet comes out as it was sent, but for frame numbers, and these are only moved in the middle of
a GOP and by an adjustment that is not zero. -/
structure Passes (setup : Setup) (packet : Packet) (adjustment : UInt32) (out : Packet) : Prop where
  attributes : out = { packet with data := out.data }
  size : out.data.length = packet.data.length
  bits : ∀ index, ¬ FrameNum.Holds setup.sets packet.data index →
    (Bits.ofBytes out.data)[index]? = (Bits.ofBytes packet.data)[index]?
  same : (packet.key ∨ adjustment = 0 ∨
      ∃ scan, Nal.scan setup.sets.framing packet.data = .ok scan ∧
        (FrameNum.slices scan = [] ∨ ∃ span ∈ FrameNum.slices scan, span.type.isIdr)) →
    out = packet

/-- A delivery consists of its skipped pictures in order, and the packet behind the last of them. -/
structure Sound (setup : Setup) (delivery : Delivery) : Prop where
  bound : delivery.run.remaining ≤ 1000
  order : ∃ skips last, Skips setup delivery.packet delivery.run skips last ∧
    (∀ skip ∈ skips, Skipped setup delivery.packet skip) ∧
    (delivery.received = skips ∨
      last.remaining = 0 ∧ ∃ out, delivery.received = skips ++ [out] ∧
        Passes setup delivery.packet delivery.adjustment out)

end Delivery

/-- The deliveries of a sequence of calls, in the order in which their packets were taken. -/
def deliveries (turns : List Turn) : List Delivery :=
  (turns.foldl Delivery.record []).reverse

/-- Each picture of a run stands in for one that is missing before the packet. -/
theorem Skips.skipped {setup : Setup} {packet : Packet} {run last : SkipRun}
    {skips : List Packet} (h : Skips setup packet run skips last) :
    ∀ skip ∈ skips, Delivery.Skipped setup packet skip := by
  induction h with
  | none run => simp
  | next _ hSkip _ ih =>
      intro other hOther
      rcases List.mem_cons.mp hOther with rfl | hOther
      · obtain ⟨data, _, rfl⟩ := Setup.skip_eq_ok hSkip
        exact ⟨rfl, rfl, rfl, rfl, rfl, rfl⟩
      · exact ih other hOther

/-- A packet that is given out is the one that was taken, up to frame numbers. -/
theorem Delivers.passes {f after : Filter} {packet out : Packet}
    (h : Delivers f packet (.ok out) after) :
    Delivery.Passes f.setup packet f.adjustment out := by
  cases h with
  | key | endOfGop | released => exact ⟨rfl, rfl, fun _ _ => rfl, fun _ => rfl⟩
  | @renumbered scan last hKey hNonzero hScan hSlices hIdr hDone =>
      obtain ⟨hLength, hFrame⟩ := @Renumbered.ofSlices_frame f.setup.sets f.adjustment _ _
        (FrameNum.slices_laid hScan) 0
      have hAll : (FrameNum.slices scan).filter (fun span => !span.type.isIdr)
          = FrameNum.slices scan :=
        List.filter_eq_self.mpr fun span hSpan => by simpa using hIdr span hSpan
      refine ⟨rfl, hLength, fun index hIndex => hFrame index fun hCovers => ?_, fun hSame => ?_⟩
      · exact hIndex ⟨scan, hScan, hAll.symm ▸ hCovers⟩
      · rcases hSame with hMarked | hZero | ⟨other, hOther, hNone | ⟨span, hSpan, hRefresh⟩⟩
        · exact absurd hMarked hKey
        · exact absurd hZero hNonzero
        · cases hScan.symm.trans hOther
          exact absurd hNone hSlices
        · cases hScan.symm.trans hOther
          exact absurd hRefresh (hIdr span hSpan)

namespace Delivery

variable {delivery : Delivery} {rest deliveries : List Delivery} {before : Filter}

theorem record_drained {answer : Answer Packet} (h : answer.result = .error .needMoreData) :
    record deliveries (.received before answer) = deliveries := by
  cases deliveries <;> simp [record, h]

/-- A fault closes the delivery that is open. -/
theorem record_fault {answer : Answer Packet} {fault : Fault} (h : answer.result = .error fault)
    (hFault : fault ≠ .needMoreData) :
    record (delivery :: rest) (.received before answer)
      = { delivery with fault := some fault } :: rest := by
  simp [record, h]

/-- A packet given out belongs to the delivery that is open. -/
theorem record_given {answer : Answer Packet} {out : Packet} (h : answer.result = .ok out) :
    record (delivery :: rest) (.received before answer)
      = { delivery with
          received := delivery.received ++ [out], adjustment := before.adjustment } :: rest := by
  simp [record, h]

/-- Nothing more can be given out for a packet. -/
def Closed (setup : Setup) (delivery : Delivery) : Prop :=
  delivery.Sound setup ∧ (delivery.Complete ∨ delivery.fault.isSome)

/-- The delivery of the packet that is held, with the skipped pictures given out before it. -/
structure Open (setup : Setup) (packet : Packet) (run : SkipRun) (delivery : Delivery) : Prop where
  packet : delivery.packet = packet
  bound : delivery.run.remaining ≤ 1000
  skips : Skips setup delivery.packet delivery.run delivery.received run

/-- What the deliveries so far have to do with the state of the filter. -/
inductive Records (setup : Setup) (f : Filter) : List Delivery → Prop
  | idle {deliveries : List Delivery} (hState : f.state = .idle)
      (hClosed : ∀ delivery ∈ deliveries, delivery.Closed setup) : Records setup f deliveries
  | holding {packet : Packet} {run : SkipRun} {delivery : Delivery} {rest : List Delivery}
      (hState : f.state = .holding packet run) (hOpen : delivery.Open setup packet run)
      (hClosed : ∀ delivery ∈ rest, delivery.Closed setup) : Records setup f (delivery :: rest)

/-- A delivery that is still open is sound so far. -/
theorem Open.sound {setup : Setup} {packet : Packet} {run : SkipRun}
    (h : delivery.Open setup packet run) : delivery.Sound setup :=
  ⟨h.bound, _, _, h.skips, h.skips.skipped, .inl rfl⟩

/-- What a turn adds to the deliveries so far. -/
structure Extends (turn : Turn) (before after : List Delivery) : Prop where
  packets : after.reverse.map packet = before.reverse.map packet ++ turn.accepted.toList
  received : after.reverse.flatMap received = before.reverse.flatMap received ++ turn.given.toList

/-- A packet that is taken opens a delivery of its own; one that is refused changes none. -/
theorem Records.send {setup : Setup} {f : Filter} (h : Records setup f deliveries)
    (packet : Packet) :
    Records setup (f.send packet).filter (record deliveries (f.turn (.send packet))) ∧
      Extends (f.turn (.send packet)) deliveries (record deliveries (f.turn (.send packet))) := by
  cases h with
  | idle hState hClosed =>
      obtain ⟨hOk, hAfter⟩ := send_of_idle hState packet
      have hRecord : record deliveries (f.turn (.send packet))
          = { packet, run := f.plan packet } :: deliveries := by
        simp only [record, turn, hOk, hAfter]
        rfl
      rw [hRecord, hAfter]
      refine ⟨.holding rfl ⟨rfl, f.plan_remaining_le packet, .none _⟩ hClosed, ?_, ?_⟩
      · simp [turn, Turn.accepted, hOk, Except.toOption]
      · simp [turn, Turn.given]
  | @holding held run delivery rest hState hOpen hClosed =>
      have hRefused := send_of_busy (f := f) (by simp [hState]) packet
      have hRecord : record (delivery :: rest) (f.turn (.send packet)) = delivery :: rest := by
        simp only [record, turn, hRefused]
      rw [hRecord, hRefused]
      refine ⟨.holding hState hOpen hClosed, ?_, ?_⟩
      · simp [turn, Turn.accepted, hRefused, Except.toOption]
      · simp [turn, Turn.given]

/-- A packet given out goes on with the open delivery, or closes it. -/
theorem records_of_ok {f after : Filter} {packet out : Packet} {run : SkipRun}
    (h : Receives f (.ok out) after) (hState : f.state = .holding packet run)
    (hOpen : delivery.Open f.setup packet run)
    (hClosed : ∀ delivery ∈ rest, delivery.Closed f.setup) :
    Records f.setup after ({ delivery with
      received := delivery.received ++ [out], adjustment := f.adjustment } :: rest) := by
  obtain rfl := hOpen.packet
  rcases h.of_ok hState with ⟨hRun, hSkip, hAfter⟩ | ⟨hRun, hDelivers⟩
  · rw [hAfter]
    exact .holding rfl ⟨rfl, hOpen.bound, hOpen.skips.snoc hRun hSkip⟩ hClosed
  · have hLength := hOpen.skips.length_add_remaining
    refine .idle hDelivers.frame.1 (List.forall_mem_cons.mpr ⟨⟨⟨hOpen.bound, ?_⟩, .inl ?_⟩, hClosed⟩)
    · exact ⟨delivery.received, run, hOpen.skips, hOpen.skips.skipped,
        .inr ⟨hRun, out, rfl, hDelivers.passes⟩⟩
    · show (delivery.received ++ [out]).length = delivery.run.remaining + 1
      rw [List.length_append, List.length_singleton]
      omega

/-- A call of `receive` adds to the open delivery what it gives out, or closes it with a fault. -/
theorem Records.receive {setup : Setup} {f : Filter} (h : Records setup f deliveries)
    (hSetup : f.setup = setup) :
    Records setup f.receive.filter (record deliveries (f.turn .receive)) ∧
      Extends (f.turn .receive) deliveries (record deliveries (f.turn .receive)) := by
  subst hSetup
  cases h with
  | idle hState hClosed =>
      have hReceive := receive_of_idle hState
      have hRecord : record deliveries (f.turn .receive) = deliveries :=
        record_drained (by rw [hReceive])
      rw [hRecord, hReceive]
      refine ⟨.idle hState hClosed, ?_, ?_⟩
      · simp [turn, Turn.accepted]
      · simp [turn, Turn.given, hReceive, Except.toOption]
  | @holding packet run delivery rest hState hOpen hClosed =>
      have hReceives := receives (.inr ⟨packet, run, hState⟩)
      cases hResult : f.receive.result with
      | error fault =>
          rw [hResult] at hReceives
          obtain ⟨hFault, hAfter⟩ := hReceives.of_error hState
          have hRecord := @record_fault delivery rest f f.receive fault hResult hFault
          rw [turn, hRecord, hAfter]
          have hHead : Closed f.setup { delivery with fault := some fault } :=
            ⟨Open.sound ⟨hOpen.packet, hOpen.bound, hOpen.skips⟩, .inr rfl⟩
          refine ⟨.idle rfl (List.forall_mem_cons.mpr ⟨hHead, hClosed⟩), ?_, ?_⟩
          · simp [Turn.accepted]
          · simp [Turn.given, hResult, Except.toOption]
      | ok out =>
          rw [hResult] at hReceives
          have hRecord := @record_given delivery rest f f.receive out hResult
          rw [turn, hRecord]
          refine ⟨records_of_ok hReceives hState hOpen hClosed, ?_, ?_⟩
          · simp [Turn.accepted]
          · simp [Turn.given, hResult, Except.toOption]

/-- Either call keeps the deliveries in step with the filter, and touches none but the one at the
head. -/
theorem Records.turn {setup : Setup} {f : Filter} (h : Records setup f deliveries)
    (hSetup : f.setup = setup) (call : Call) :
    Records setup (f.turn call).after (record deliveries (f.turn call)) ∧
      Extends (f.turn call) deliveries (record deliveries (f.turn call)) := by
  cases call with
  | send packet => exact h.send packet
  | receive => exact h.receive hSetup

theorem Records.settled {setup : Setup} {f : Filter} (h : Records setup f deliveries) :
    f.Settled := by
  cases h with
  | idle hState => exact .inl hState
  | holding hState => exact .inr ⟨_, _, hState⟩

/-- Only the delivery at the head can be open. -/
theorem Records.closed {setup : Setup} {f : Filter} (h : Records setup f deliveries) :
    (∀ delivery ∈ deliveries, delivery.Sound setup) ∧
      ∀ delivery ∈ deliveries.tail, delivery.Closed setup := by
  cases h with
  | idle _ hClosed =>
      exact ⟨fun delivery hMem => (hClosed delivery hMem).1,
        fun delivery hMem => hClosed delivery (List.mem_of_mem_tail hMem)⟩
  | holding _ hOpen hClosed =>
      exact ⟨List.forall_mem_cons.mpr ⟨hOpen.sound, fun delivery hMem => (hClosed delivery hMem).1⟩,
        hClosed⟩

/-- Calls leave the deliveries in order, and record all that was taken and given out. -/
theorem Records.turns {setup : Setup} {f : Filter} (h : Records setup f deliveries)
    (hSetup : f.setup = setup) (calls : List Call) :
    (∃ last, Records setup last ((f.turns calls).foldl record deliveries)) ∧
      ((f.turns calls).foldl record deliveries).reverse.map packet
        = deliveries.reverse.map packet ++ (f.turns calls).filterMap Turn.accepted ∧
      ((f.turns calls).foldl record deliveries).reverse.flatMap received
        = deliveries.reverse.flatMap received ++ (f.turns calls).filterMap Turn.given := by
  induction calls generalizing f deliveries with
  | nil => exact ⟨⟨f, h⟩, by simp [Filter.turns], by simp [Filter.turns]⟩
  | cons call calls ih =>
      obtain ⟨hRecords, hExtends⟩ := h.turn hSetup call
      obtain ⟨hLast, hPackets, hReceived⟩ :=
        ih hRecords ((turn_frame h.settled call).2.trans hSetup)
      rw [Filter.turns, List.foldl_cons, hPackets, hReceived, hExtends.packets, hExtends.received,
        List.filterMap_cons, List.filterMap_cons]
      refine ⟨hLast, ?_, ?_⟩
      · cases (f.turn call).accepted <;> simp
      · cases (f.turn call).given <;> simp

end Delivery

theorem exists_of_mem_turns {f : Filter} (calls : List Call) {turn : Turn}
    (h : turn ∈ f.turns calls) : ∃ (before : Filter) (call : Call), turn = before.turn call := by
  induction calls generalizing f with
  | nil => cases h
  | cons call calls ih =>
      rcases List.mem_cons.mp h with rfl | hTurn
      · exact ⟨f, call, rfl⟩
      · exact ih hTurn

/-- Only a filter that holds a packet refuses another one. -/
theorem send_eq_error {f : Filter} {packet : Packet} {fault : Fault}
    (h : (f.send packet).result = .error fault) :
    f.isIdle = false ∧ fault.category = .invalidState ∧ (f.send packet).filter = f := by
  by_cases hState : f.state = .idle
  · rw [(send_of_idle hState packet).1] at h
    cases h
  · rw [send_of_busy hState] at h ⊢
    cases h
    exact ⟨by simpa using fun hIdle => hState (f.isIdle_iff.mp hIdle), rfl, rfl⟩

/-- Nothing is lost, doubled, reordered or changed on the way. -/
structure Served (setup : Setup) (turns : List Turn) : Prop where
  /-- Each packet that was taken has its delivery. -/
  packets : (deliveries turns).map Delivery.packet = turns.filterMap Turn.accepted
  /-- Together the deliveries are all that was given out. -/
  received : (deliveries turns).flatMap Delivery.received = turns.filterMap Turn.given
  sound : ∀ delivery ∈ deliveries turns, delivery.Sound setup
  /-- Only the last one can be unfinished without a fault. -/
  finished : ∀ delivery ∈ (deliveries turns).dropLast, delivery.Complete ∨ delivery.fault.isSome
  /-- A packet is refused for one reason only, and is left alone. -/
  refused : ∀ before packet answer fault, Turn.sent before packet answer ∈ turns →
    answer.result = .error fault →
      before.isIdle = false ∧ fault.category = .invalidState ∧ answer.filter = before
  /-- When nothing is held, asking for a packet changes nothing. -/
  drained : ∀ before answer, Turn.received before answer ∈ turns → before.isIdle →
    answer.result = .error .needMoreData ∧ answer.filter = before

/-- Under any sequence of calls a filter gives out, packet by packet in the order in which it took them,
the skipped pictures that it had scheduled and then the packet itself. -/
theorem served_turns {info : StreamInfo} {timeBase frameRate : Rational}
    {templates : TemplateTable} {f : Filter}
    (hCreate : (create info timeBase frameRate templates).result = .ok f) (calls : List Call) :
    Served f.setup (f.turns calls) := by
  have hState : f.state = .idle := by rw [(checked_of_create hCreate).1, start]
  have hFirst : Delivery.Records f.setup f [] := .idle hState (by simp)
  obtain ⟨⟨last, hRecords⟩, hPackets, hReceived⟩ := hFirst.turns rfl calls
  refine ⟨hPackets, hReceived, ?_, ?_, ?_, ?_⟩
  · intro delivery hMem
    exact hRecords.closed.1 delivery (List.mem_reverse.mp hMem)
  · intro delivery hMem
    rw [deliveries, List.dropLast_reverse, List.mem_reverse] at hMem
    exact (hRecords.closed.2 delivery hMem).2
  · intro before packet answer fault hMem hFault
    obtain ⟨_, call, hTurn⟩ := exists_of_mem_turns calls hMem
    cases call <;> cases hTurn
    exact send_eq_error hFault
  · intro before answer hMem hIdle
    obtain ⟨_, call, hTurn⟩ := exists_of_mem_turns calls hMem
    cases call <;> cases hTurn
    rw [receive_of_idle (before.isIdle_iff.mp hIdle)]
    exact ⟨rfl, rfl⟩

/-- A packet is refused while skipped pictures before another one are still to be received. -/
def sampleCalls : List Call :=
  [.receive, .send (sampleKey 0), .receive, .send (samplePicture 1 10800), .receive,
    .send (samplePicture 2 14400), .receive, .receive, .receive, .send (samplePicture 2 14400)]

/-- Of three packets taken, the last one has not been asked for yet; the other two came out
whole. -/
theorem served_turns_sampleCalls :
    (deliveries (sample.turns sampleCalls)).map (·.received.length) = [1, 3, 0] ∧
      Served sample.setup (sample.turns sampleCalls) :=
  ⟨by decide +kernel, served_turns create_sample sampleCalls⟩

end Filter

end Cadence
