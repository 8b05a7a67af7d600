import Cadence.Proofs.Filter.Admitted
import Cadence.Proofs.Filter.Drain

/-!
How large the numbers in a filter can get. Whatever packets it is given, a frame number that it remembers
fits the widest field there is, and so do, but for the length of the longest gap, the numbers of the
skipped pictures that it plans (`Bounded`).
-/

namespace Cadence

namespace FrameNum

open BitReader

variable {sets : ParameterSets}

/-- No parameter set in range makes a frame number wider than 16 bits. -/
theorem bitWidth_of_read (h : sets.InRange) :
    Read.Ensures (fun field => field.bitWidth ≤ 16) (read sets) := by
  unfold read
  refine .bind fun _ => .bind fun ppsId => .guard fun _ => ?_
  cases hActive : sets.active ppsId with
  | error fault =>
      intro r field s hRead
      obtain ⟨_, _, hThrow, _⟩ := bind_eq_ok.mp hRead
      cases hThrow
  | ok pair =>
      have hWidth : pair.2.log2MaxFrameNum ≤ 16 := (h.active hActive).2.numberWidth.2
      intro r field s hRead
      obtain ⟨_, _, hSps, hRead⟩ := bind_eq_ok.mp hRead
      cases hSps
      obtain ⟨_, _, _, hRead⟩ := bind_eq_ok.mp hRead
      obtain ⟨_, _, _, hRead⟩ := bind_eq_ok.mp hRead
      cases hRead
      exact hWidth

theorem bitWidth_of_ofPayload (h : sets.InRange) {payload : Bytes} {field : FrameNum}
    (hField : ofPayload sets payload = .ok field) : field.bitWidth ≤ 16 := by
  obtain ⟨found, hFound, hField⟩ := except_bind_eq_ok.mp hField
  dsimp only at hField
  split at hField <;> cases hField
  exact (bitWidth_of_read h).of_value? hFound

theorem ofPayload_lt (h : sets.InRange) {payload : Bytes} {field : FrameNum}
    (hField : ofPayload sets payload = .ok field) : field.value < 2 ^ 16 := by
  obtain ⟨_, _, hValue⟩ := ofPayload_eq_ok hField
  rw [hValue]
  exact Nat.lt_of_lt_of_le (Bits.field_lt _ _ _)
    (Nat.pow_le_pow_right Nat.two_pos (bitWidth_of_ofPayload h hField))

/-- Moved by any adjustment, a frame number stays within its field. -/
theorem adjusted_lt (h : sets.InRange) {payload : Bytes} {field : FrameNum}
    (hField : ofPayload sets payload = .ok field) (adjustment : UInt32) :
    field.adjusted adjustment < 2 ^ 16 := by
  have hWidth := bitWidth_of_ofPayload h hField
  rw [adjusted_eq adjustment (by omega)]
  exact Nat.lt_of_lt_of_le (Nat.mod_lt _ (Nat.two_pow_pos _))
    (Nat.pow_le_pow_right Nat.two_pos hWidth)

/-- The frame number read from a packet has at most 16 bits. -/
theorem ofPacket_lt (h : sets.InRange) {data : Bytes} {number : Nat}
    (hNumber : (ofPacket sets data).result = .ok number) : number < 2 ^ 16 := by
  rw [result_ofPacket] at hNumber
  obtain ⟨scan, _, hNumber⟩ := except_bind_eq_ok.mp hNumber
  obtain ⟨_, hNone, hLast⟩ := ofSlices_eq_ok hNumber
  by_cases hSome : slices scan = []
  · rw [hNone hSome]
    decide
  · have hSlice := hLast _ (List.getLast?_eq_some_getLast hSome)
    unfold ofSlice at hSlice
    split at hSlice
    case isTrue =>
      cases hSlice
      decide
    case isFalse =>
      obtain ⟨field, hField, hSlice⟩ := except_bind_eq_ok.mp hSlice
      cases hSlice
      exact ofPayload_lt h hField

end FrameNum

namespace Filter

/-- Data that is shorter than this leaves room in a word for the number of its bits, and for more. -/
def Small (data : Bytes) : Prop :=
  data.length < 2 ^ 60

instance (data : Bytes) : Decidable (Small data) :=
  inferInstanceAs (Decidable (_ < _))

structure Setup.Bounded (setup : Setup) : Prop where
  sets : setup.sets.InRange
  admitted : setup.Admitted
  sliceData : Small setup.skipFrame.sliceData

/-- A run never goes far beyond the largest frame number there is. -/
def State.Bounded : State → Prop
  | .idle => True
  | .holding packet run => Small packet.data ∧ run.nextFrameNum + run.remaining < 2 ^ 17
  | .adjusting packet | .releasing packet => Small packet.data

structure Bounded (f : Filter) : Prop where
  setup : f.setup.Bounded
  number : f.lastFrameNum < 2 ^ 16
  state : f.state.Bounded

/-- A filter that was created with templates short enough is bounded from the start. -/
theorem bounded_of_create {info : StreamInfo} {timeBase frameRate : Rational}
    {templates : TemplateTable} {f : Filter}
    (hCreate : (create info timeBase frameRate templates).result = .ok f)
    (hTemplates : ∀ size data, templates.lookup size = some data → Small data) : f.Bounded := by
  have hAdmitted := admitted_of_create hCreate
  obtain ⟨hStart, size, sets, hInfo, hSets, hSetup⟩ := exists_ofSets_of_create hCreate
  obtain ⟨hSame, _, _, hData, _⟩ := Setup.of_ofSets hSetup
  refine ⟨⟨hSame ▸ ParameterSets.inRange_of_ofExtradata hSets, hAdmitted, ?_⟩, ?_, ?_⟩
  · unfold Filter.sliceData at hData
    split at hData
    case isTrue =>
      split at hData
      case h_1 data hLookup =>
        cases hData
        exact hTemplates size _ hLookup
      case h_2 => cases hData
    case isFalse =>
      rw [← Except.ok.inj hData]
      exact Nat.two_pow_pos 60
  · rw [hStart]
    exact Nat.two_pow_pos 16
  · rw [hStart]
    trivial

section Calls

variable {f g after : Filter} {packet : Packet}

/-- The number that a packet leaves behind has at most 16 bits. -/
theorem Delivers.lastFrameNum_lt {result : Except Fault Packet} (hSets : f.setup.sets.InRange)
    (hNumber : f.lastFrameNum < 2 ^ 16) (h : Delivers f packet result after) :
    after.lastFrameNum < 2 ^ 16 := by
  cases h with
  | key => exact Nat.two_pow_pos 16
  | endOfGop => exact Nat.two_pow_pos 16
  | renumbered _ _ hScan hSome _ hDone =>
      obtain ⟨hFields, _, hLast⟩ := Renumbered.ofSlices_done (FrameNum.slices_laid hScan) hDone
      have hSpan := List.getLast?_eq_some_getLast hSome
      obtain ⟨field, hField, _⟩ := hFields _ (List.mem_of_getLast? hSpan)
      cases hLast _ field hSpan hField
      exact FrameNum.adjusted_lt hSets hField _
  | released _ _ hNumber => exact FrameNum.ofPacket_lt hSets hNumber
  | lost => exact hNumber

theorem Bounded.delivers {result : Except Fault Packet} (hSetup : f.setup.Bounded)
    (hNumber : f.lastFrameNum < 2 ^ 16) (h : Delivers f packet result after) : after.Bounded := by
  obtain ⟨hState, hSame, _⟩ := h.frame
  refine ⟨hSame ▸ hSetup, h.lastFrameNum_lt hSetup.sets hNumber, ?_⟩
  rw [hState]
  trivial

theorem Bounded.idle (h : f.Bounded) : Bounded { f with state := .idle } :=
  ⟨h.setup, h.number, trivial⟩

/-- The run that is planned for a packet starts within the bounds, as the last number lies within
its own. -/
theorem Bounded.accept (h : f.Bounded) (hPacket : Small packet.data) : (f.accept packet).Bounded := by
  refine ⟨h.setup, h.number, hPacket, ?_⟩
  have hCount := f.plan_remaining_le packet
  have hNumber := h.number
  have hFirst : (f.plan packet).nextFrameNum ≤ f.lastFrameNum + 1 := by
    unfold plan
    repeat' split
    all_goals simp
  omega

/-- A call of `send` keeps the bounds, whether the packet is taken or refused. -/
theorem Bounded.send (h : f.Bounded) (hPacket : Small packet.data) :
    (f.send packet).filter.Bounded := by
  by_cases hState : f.state = .idle
  · rw [(send_of_idle hState packet).2]
    exact h.accept hPacket
  · rw [send_of_busy hState]
    exact h

/-- The two transitions in between keep the packet that is held. -/
theorem Bounded.step (h : f.Bounded) (hStep : f.step = .next g) : g.Bounded := by
  have hState := h.state
  unfold Filter.step at hStep
  split at hStep
  case h_1 => cases hStep
  case h_2 hHolding =>
    rw [hHolding] at hState
    repeat' split at hStep
    all_goals cases hStep
    all_goals exact ⟨h.setup, h.number, hState.1⟩
  case h_3 hAdjusting =>
    rw [hAdjusting] at hState
    split at hStep <;> cases hStep
    exact ⟨h.setup, Nat.two_pow_pos 16, hState⟩
  case h_4 => cases hStep

/-- A call of `receive` keeps the bounds: a run only moves towards its end. -/
theorem Bounded.receives {result : Except Fault Packet} (h : f.Bounded)
    (hReceives : Receives f result after) : after.Bounded := by
  cases hReceives with
  | drained => exact h
  | skip hState hRun =>
      have hHeld := h.state
      rw [hState] at hHeld
      obtain ⟨hPacket, hNumbers⟩ := hHeld
      refine ⟨h.setup, h.number, hPacket, ?_⟩
      simp only [SkipRun.next]
      omega
  | skipFault => exact h.idle
  | due _ _ hDelivers => exact .delivers h.setup h.number hDelivers

/-- Draining a packet keeps the bounds, whatever comes out before a fault. -/
theorem Bounded.drains {result : Except Fault (List Packet)} (h : f.Bounded)
    (hDrains : Drains f packet result after) : after.Bounded := by
  cases hDrains with
  | done _ _ hDelivers =>
      have hSetup : (f.accept packet).setup.Bounded := h.setup
      exact .delivers hSetup h.number hDelivers
  | failed => exact ⟨h.setup, h.number, trivial⟩

/-- A filter that holds a packet refuses to drain another one, and stays as it is. -/
theorem drain_of_busy (h : f.state ≠ .idle) (packet : Packet) :
    f.drain packet = { filter := f, result := .error (.notDrained f.setup.label) } := by
  rw [drain, send_of_busy h]

theorem Drains.idle {result : Except Fault (List Packet)} (h : Drains f packet result after) :
    after.state = .idle := by
  cases h with
  | done _ _ hDelivers => exact hDelivers.frame.1
  | failed => rfl

/-- Draining leaves a filter in a state between two calls. -/
theorem drain_settled (h : f.Settled) (packet : Packet) : (f.drain packet).filter.Settled := by
  by_cases hState : f.state = .idle
  · exact .inl (drains hState packet).idle
  · rw [drain_of_busy hState]
    exact h

theorem Bounded.drain (h : f.Bounded) (packet : Packet) : (f.drain packet).filter.Bounded := by
  by_cases hState : f.state = .idle
  · exact h.drains (Filter.drains hState packet)
  · rw [drain_of_busy hState]
    exact h

end Calls

end Filter

end Cadence
