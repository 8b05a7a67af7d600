import Mathlib.Data.List.Chain
import Cadence.Proofs.Filter.Calls

/-!
What draining a packet gives: the skipped pictures of its run and then the packet itself, or a fault
(`Drains`). After a fault the filter is idle, and what it planned for the packet stays accounted for.
-/

namespace Cadence

namespace Filter

/-- Skipped pictures that are received one after another, from the first run up to the last one. -/
inductive Skips (setup : Setup) (packet : Packet) : SkipRun → List Packet → SkipRun → Prop
  | none (run : SkipRun) : Skips setup packet run [] run
  | next {run last : SkipRun} {skip : Packet} {skips : List Packet} (hRun : 0 < run.remaining)
      (hSkip : setup.skip packet run = .ok skip)
      (rest : Skips setup packet (run.next setup.duration) skips last) :
      Skips setup packet run (skip :: skips) last

/-- A run that is received up to some picture can be received one picture further. -/
theorem Skips.snoc {setup : Setup} {packet skip : Packet} {run last : SkipRun} {skips : List Packet}
    (h : Skips setup packet run skips last) (hRun : 0 < last.remaining)
    (hSkip : setup.skip packet last = .ok skip) :
    Skips setup packet run (skips ++ [skip]) (last.next setup.duration) := by
  induction h with
  | none run => exact .next hRun hSkip (.none _)
  | next hFirst hHead _ ih => exact .next hFirst hHead (ih hRun hSkip)

/-- The pictures received and those still due make up the run. -/
theorem Skips.length_add_remaining {setup : Setup} {packet : Packet} {run last : SkipRun}
    {skips : List Packet} (h : Skips setup packet run skips last) :
    skips.length + last.remaining = run.remaining := by
  induction h with
  | none run => exact Nat.zero_add _
  | next hRun _ _ ih =>
      simp only [SkipRun.next] at ih
      simp only [List.length_cons]
      omega

/-- What becomes of a packet that is due does not depend on the state in which the filter holds
it. -/
theorem Delivers.of_state {f after : Filter} {state : State} {packet : Packet}
    {result : Except Fault Packet} (h : Delivers { f with state } packet result after) :
    Delivers f packet result after := by
  cases h with
  | key hKey => exact .key hKey
  | endOfGop hKey hAdjustment hScan hEnd => exact .endOfGop hKey hAdjustment hScan hEnd
  | renumbered hKey hAdjustment hScan hSlices hIdr hDone =>
      exact .renumbered hKey hAdjustment hScan hSlices hIdr hDone
  | released hKey hAdjustment hNumber => exact .released hKey hAdjustment hNumber
  | lost hKey hFault => exact .lost hKey hFault

/-- Nothing but the data of a packet can change on its way. -/
theorem Delivers.attributes {f after : Filter} {packet out : Packet}
    (h : Delivers f packet (.ok out) after) : out = { packet with data := out.data } := by
  cases h <;> rfl

/-- While a packet is held, a fault loses this packet and nothing else. -/
theorem Receives.of_error {f after : Filter} {packet : Packet} {run : SkipRun} {fault : Fault}
    (h : Receives f (.error fault) after) (hState : f.state = .holding packet run) :
    fault ≠ .needMoreData ∧ after = { f with state := .idle } := by
  cases h with
  | drained hIdle => cases hIdle.symm.trans hState
  | skipFault _ _ hSkip =>
      obtain ⟨_, _, rfl⟩ := Setup.skip_eq_error hSkip
      exact ⟨Fault.noConfusion, rfl⟩
  | due _ _ hDelivers =>
      cases hDelivers with
      | lost _ hFault => exact ⟨hFault.ne_needMoreData, rfl⟩

/-- While a packet is held, a packet received is the next skipped picture or the packet itself. -/
theorem Receives.of_ok {f after : Filter} {packet out : Packet} {run : SkipRun}
    (h : Receives f (.ok out) after) (hState : f.state = .holding packet run) :
    (0 < run.remaining ∧ f.setup.skip packet run = .ok out ∧
        after = { f with state := .holding packet (run.next f.setup.duration) }) ∨
      (run.remaining = 0 ∧ Delivers f packet (.ok out) after) := by
  cases h with
  | skip hOther hRun hSkip =>
      cases hOther.symm.trans hState
      exact .inl ⟨hRun, hSkip, rfl⟩
  | due hOther hRun hDelivers =>
      cases hOther.symm.trans hState
      exact .inr ⟨hRun, hDelivers⟩

section ReceiveAll

variable {f : Filter}

/-- A packet that is received goes before all that the rest of the loop receives. -/
theorem receiveAll_of_ok {packet : Packet} (h : f.receive.result = .ok packet) :
    f.receiveAll.result = f.receive.filter.receiveAll.result.map (packet :: ·) ∧
      f.receiveAll.filter = f.receive.filter.receiveAll.filter := by
  rw [receiveAll]
  dsimp only
  split
  case h_1 hOther => cases h.symm.trans hOther
  case h_2 hOther => cases h.symm.trans hOther
  case h_3 other hOther =>
    cases h.symm.trans hOther
    exact ⟨rfl, rfl⟩

/-- The loop ends without a fault when nothing is held any more. -/
theorem receiveAll_of_needMoreData (h : f.receive.result = .error .needMoreData) :
    f.receiveAll.result = .ok [] ∧ f.receiveAll.filter = f.receive.filter := by
  rw [receiveAll]
  dsimp only
  split
  case h_1 => exact ⟨rfl, rfl⟩
  case h_2 fault hFault hOther =>
    cases h.symm.trans hOther
    exact absurd rfl hFault
  case h_3 hOther => cases h.symm.trans hOther

/-- Any other fault ends the loop, and with it goes all that was received before. -/
theorem receiveAll_of_error {fault : Fault} (h : f.receive.result = .error fault)
    (hFault : fault ≠ .needMoreData) :
    f.receiveAll.result = .error fault ∧ f.receiveAll.filter = f.receive.filter := by
  rw [receiveAll]
  dsimp only
  split
  case h_1 hOther =>
    cases h.symm.trans hOther
    exact absurd rfl hFault
  case h_2 hOther =>
    cases h.symm.trans hOther
    exact ⟨rfl, rfl⟩
  case h_3 hOther => cases h.symm.trans hOther

/-- From an idle filter the loop receives nothing. -/
theorem receiveAll_of_idle (h : f.state = .idle) :
    f.receiveAll.result = .ok [] ∧ f.receiveAll.filter = f := by
  have hReceive := receive_of_idle h
  have hDrained : f.receive.result = .error .needMoreData := by rw [hReceive]
  obtain ⟨hNone, hSame⟩ := receiveAll_of_needMoreData hDrained
  rw [hReceive] at hSame
  exact ⟨hNone, hSame⟩

end ReceiveAll

/-- What receiving gives while a packet is held. -/
inductive Empties (f : Filter) (packet : Packet) (run : SkipRun) :
    Except Fault (List Packet) → Filter → Prop
  /-- The skipped pictures come first, then the packet. -/
  | done {skips : List Packet} {last : SkipRun} {out : Packet} {after : Filter}
      (hSkips : Skips f.setup packet run skips last) (hLast : last.remaining = 0)
      (hDelivers : Delivers f packet (.ok out) after) : Empties f packet run (.ok (skips ++ [out])) after
  /-- A fault leaves the filter as it is, without the packet. -/
  | failed (fault : Fault) : Empties f packet run (.error fault) { f with state := .idle }

/-- A skipped picture that is written goes before whatever the rest of the loop gives. -/
theorem Empties.of_skip {f after : Filter} {packet skip : Packet} {run : SkipRun}
    {result : Except Fault (List Packet)} (hRun : 0 < run.remaining)
    (hSkip : f.setup.skip packet run = .ok skip)
    (h : Empties { f with state := .holding packet (run.next f.setup.duration) } packet
      (run.next f.setup.duration) result after) :
    Empties f packet run (result.map (skip :: ·)) after := by
  cases h with
  | done hSkips hLast hDelivers =>
      exact .done (.next hRun hSkip hSkips) hLast hDelivers.of_state
  | failed fault => exact .failed fault

/-- The loop takes out all that is held, down to the first fault. -/
theorem empties {f : Filter} {packet : Packet} {run : SkipRun}
    (h : f.state = .holding packet run) :
    Empties f packet run f.receiveAll.result f.receiveAll.filter := by
  revert run
  fun_induction receiveAll f
  case case1 f first hDrained =>
    intro run h
    have hReceives := receives (.inr ⟨packet, run, h⟩)
    rw [hDrained] at hReceives
    exact absurd rfl (hReceives.of_error h).1
  case case2 f first fault _ hError =>
    intro run h
    have hReceives := receives (.inr ⟨packet, run, h⟩)
    rw [hError] at hReceives
    dsimp only [first]
    rw [(hReceives.of_error h).2]
    exact .failed fault
  case case3 f first out hOk _ rest ih =>
    intro run h
    have hReceives := receives (.inr ⟨packet, run, h⟩)
    rw [hOk] at hReceives
    rcases hReceives.of_ok h with ⟨hRun, hSkip, hAfter⟩ | ⟨hRun, hDelivers⟩
    · have hHolding : first.filter.state = .holding packet (run.next f.setup.duration) := by
        rw [hAfter]
      have hRest := ih hHolding
      exact .of_skip hRun hSkip (hAfter ▸ hRest)
    · obtain ⟨hRest, hAfter⟩ := receiveAll_of_idle hDelivers.frame.1
      dsimp only [rest, first]
      rw [hRest, hAfter]
      exact .done (.none run) hRun hDelivers

inductive Drains (f : Filter) (packet : Packet) : Except Fault (List Packet) → Filter → Prop
  /-- All skipped pictures that were planned, and the packet behind them. -/
  | done {skips : List Packet} {last : SkipRun} {out : Packet} {after : Filter}
      (hSkips : Skips f.setup packet (f.plan packet) skips last) (hLast : last.remaining = 0)
      (hDelivers : Delivers (f.accept packet) packet (.ok out) after) :
      Drains f packet (.ok (skips ++ [out])) after
  /-- After a fault the plan stays accounted for. -/
  | failed (fault : Fault) : Drains f packet (.error fault) { f.accept packet with state := .idle }

/-- A packet drained without a fault comes out behind all the pictures that were planned for it. -/
theorem Drains.of_ok {f after : Filter} {packet : Packet} {drained : List Packet}
    (h : Drains f packet (.ok drained) after) :
    ∃ skips last out, drained = skips ++ [out] ∧
      Skips f.setup packet (f.plan packet) skips last ∧ last.remaining = 0 ∧
      Delivers (f.accept packet) packet (.ok out) after := by
  cases h with
  | done hSkips hLast hDelivers => exact ⟨_, _, _, rfl, hSkips, hLast, hDelivers⟩

/-- Draining a packet takes it in and then empties the filter, down to the first fault. -/
theorem drains {f : Filter} (h : f.state = .idle) (packet : Packet) :
    Drains f packet (f.drain packet).result (f.drain packet).filter := by
  obtain ⟨hSent, hAccept⟩ := send_of_idle h packet
  have hEmpties := @empties (f.accept packet) packet (f.plan packet) rfl
  unfold drain
  dsimp only
  rw [hSent]
  dsimp only
  rw [hAccept]
  generalize (f.accept packet).receiveAll.result = result,
    (f.accept packet).receiveAll.filter = after at hEmpties ⊢
  cases hEmpties with
  | done hSkips hLast hDelivers => exact .done hSkips hLast hDelivers
  | failed fault => exact .failed fault

inductive Output
  | skipped (packet : Packet)
  /-- A packet that was sent, and what came out for it. -/
  | passed (sent packet : Packet)

def Output.packet : Output → Packet
  | .skipped packet => packet
  | .passed _ packet => packet

/-- The last packet that is drained is the one that was sent. -/
def label (sent : Packet) (packets : List Packet) : List Output :=
  packets.dropLast.map .skipped ++ packets.getLast?.toList.map (.passed sent)

/-- What comes out when packets are drained one after another, as long as nothing goes wrong. -/
def drainAll (f : Filter) : (packets : List Packet) → Except Fault (List Output)
  | [] => .ok []
  | packet :: packets => do
    let drained ← (f.drain packet).result
    return label packet drained ++ (← (f.drain packet).filter.drainAll packets)

/-- The packet that was sent is the last one to come out, behind its skipped pictures. -/
theorem label_concat (sent out : Packet) (skips : List Packet) :
    label sent (skips ++ [out]) = skips.map .skipped ++ [.passed sent out] := by
  simp [label]

section Neighbours

variable {next : Output → Output → Prop}

/-- A property of neighbours in a run of skipped pictures, up to the packet behind them, from a
property of what has come out last and of what is left of the run. -/
theorem Skips.isChain {setup : Setup} {packet : Packet} {run last : SkipRun} {skips : List Packet}
    {leads : SkipRun → Output → Prop} (h : Skips setup packet run skips last)
    (hStep : ∀ run before skip, leads run before → 0 < run.remaining →
      setup.skip packet run = .ok skip →
        next before (.skipped skip) ∧ leads (run.next setup.duration) (.skipped skip))
    {before behind : Output} (hFirst : leads run before)
    (hLast : ∀ final, leads last final → next final behind) :
    (before :: (skips.map .skipped ++ [behind])).IsChain next := by
  induction h generalizing before with
  | none run => exact List.isChain_pair.mpr (hLast before hFirst)
  | next hRun hSkip _ ih =>
      obtain ⟨hNext, hLeads⟩ := hStep _ _ _ hFirst hRun hSkip
      exact List.isChain_cons_cons.mpr ⟨hNext, ih hLeads hLast⟩

variable {behind : Packet → Packet → Prop} {tracks : Filter → Packet → Output → Prop}

/-- Draining one more packet keeps up a property of neighbours in what comes out. What is kept track of
may be the filter, the packet that was sent last and the packet that came out last. -/
structure Keeps (next : Output → Output → Prop) (behind : Packet → Packet → Prop)
    (tracks : Filter → Packet → Output → Prop) : Prop where
  idle : ∀ f sent before, tracks f sent before → f.state = .idle
  step : ∀ f sent before packet skips last out after, tracks f sent before → behind sent packet →
    Skips f.setup packet (f.plan packet) skips last → last.remaining = 0 →
      Delivers (f.accept packet) packet (.ok out) after →
        (before :: (skips.map .skipped ++ [.passed packet out])).IsChain next ∧
          tracks after packet (.passed packet out)

/-- A property of neighbours that draining one packet keeps up holds all along the output, by
induction over the packets. -/
theorem Keeps.isChain (h : Keeps next behind tracks) {f : Filter} {sent : Packet}
    {before : Output} {packets : List Packet} {outputs : List Output}
    (hFirst : tracks f sent before) (hPackets : (sent :: packets).IsChain behind)
    (hOutputs : f.drainAll packets = .ok outputs) : (before :: outputs).IsChain next := by
  induction packets generalizing f sent before outputs with
  | nil =>
      cases hOutputs
      exact List.isChain_singleton before
  | cons packet packets ih =>
      obtain ⟨drained, hDrained, hOutputs⟩ := except_bind_eq_ok.mp hOutputs
      obtain ⟨rest, hRest, hOutputs⟩ := except_bind_eq_ok.mp hOutputs
      cases hOutputs
      obtain ⟨hBehind, hPackets⟩ := List.isChain_cons_cons.mp hPackets
      have hDrains := drains (h.idle f sent before hFirst) packet
      rw [hDrained] at hDrains
      obtain ⟨skips, last, out, rfl, hSkips, hLast, hDelivers⟩ := hDrains.of_ok
      obtain ⟨hChain, hTracks⟩ := h.step _ _ _ _ _ _ _ _ hFirst hBehind hSkips hLast hDelivers
      rw [label_concat, List.append_assoc, List.singleton_append, List.isChain_cons_split]
      exact ⟨hChain, ih hTracks hPackets hRest⟩

/-- Before the first packet nothing is missing, so that it comes out alone. -/
theorem Keeps.isChain_of_unset (h : Keeps next behind tracks) {f : Filter}
    {packets : List Packet} {outputs : List Output} (hState : f.state = .idle)
    (hUnset : f.lastDts = Ticks.unset)
    (hFirst : ∀ packet out after, packet ∈ packets →
      Delivers (f.accept packet) packet (.ok out) after → tracks after packet (.passed packet out))
    (hPackets : packets.IsChain behind) (hOutputs : f.drainAll packets = .ok outputs) :
    outputs.IsChain next := by
  cases packets with
  | nil =>
      cases hOutputs
      exact .nil
  | cons packet packets =>
      obtain ⟨drained, hDrained, hOutputs⟩ := except_bind_eq_ok.mp hOutputs
      obtain ⟨rest, hRest, hOutputs⟩ := except_bind_eq_ok.mp hOutputs
      cases hOutputs
      have hDrains := drains hState packet
      rw [hDrained] at hDrains
      obtain ⟨skips, last, out, rfl, hSkips, _, hDelivers⟩ := hDrains.of_ok
      have hPlan : f.plan packet = {} := if_pos (.inl hUnset)
      have hLength := hSkips.length_add_remaining
      rw [hPlan] at hLength
      obtain rfl := List.length_eq_zero_iff.mp (Nat.add_eq_zero_iff.mp hLength).1
      exact h.isChain (hFirst packet out _ List.mem_cons_self hDelivers) hPackets hRest

end Neighbours

end Filter

end Cadence
