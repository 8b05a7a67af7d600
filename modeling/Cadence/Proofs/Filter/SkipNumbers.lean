import Cadence.Proofs.Filter.Continuity
import Cadence.Proofs.Filter.Pending

/-!
The numbers of skipped pictures under any sequence of calls. The number of the last picture is remembered
only when a packet is given back, so that the skipped pictures of a run whose packet was lost are
forgotten, and the next run starts with the same numbers (`number_isChain`).
-/

namespace Cadence

/-- What is asked of every value that may be missing can be decided by computing it. -/
instance decidableForallOk {ε α : Type} {first : Except ε α} {holds : α → Prop}
    [DecidablePred holds] : Decidable (∀ a, first = .ok a → holds a) :=
  match first with
  | .ok a => decidable_of_iff (holds a) (by simp)
  | .error _ => isTrue (by simp)

namespace Filter

/-- The slices of a packet are all refresh slices, or none of them is. -/
def Setup.Uniform (setup : Setup) (packet : Packet) : Prop :=
  ∀ scan, Nal.scan setup.sets.framing packet.data = .ok scan →
    (∀ span ∈ FrameNum.slices scan, span.type.isIdr) ∨
      ∀ span ∈ FrameNum.slices scan, ¬ span.type.isIdr

instance (setup : Setup) (packet : Packet) : Decidable (setup.Uniform packet) := by
  unfold Setup.Uniform
  infer_instance

/-- A key packet counts as zero, whatever it holds. -/
theorem Setup.numberIn_of_key {setup : Setup} {packet : Packet} (h : packet.key) (data : Bytes) :
    setup.numberIn packet data = 0 := by
  simp [numberIn, isGopStart, h]

/-- A packet whose slices are all refresh slices counts as zero too. -/
theorem Setup.numberIn_of_idr {setup : Setup} {packet : Packet} {scan : Nal.Scan}
    (hScan : Nal.scan setup.sets.framing packet.data = .ok scan)
    (hIdr : ∀ span ∈ FrameNum.slices scan, span.type.isIdr) (data : Bytes) :
    setup.numberIn packet data = 0 := by
  by_cases hSome : FrameNum.slices scan = []
  · simp [numberIn, FrameNum.lastField, hScan, hSome, Except.toOption]
  · have hStart : setup.isGopStart packet := by
      simp [isGopStart, hScan, hSome, List.all_eq_true.mpr hIdr]
    rw [numberIn, if_pos hStart]

/-- Any other packet has the number in the last of its slices. -/
theorem Setup.numberIn_of_slice {setup : Setup} {packet : Packet} {scan : Nal.Scan}
    {span : Nal.Span} {field : FrameNum} (hKey : ¬ packet.key)
    (hScan : Nal.scan setup.sets.framing packet.data = .ok scan)
    (hSpan : (FrameNum.slices scan).getLast? = some span) (hIdr : ¬ span.type.isIdr)
    (hField : FrameNum.ofPayload setup.sets (span.payload packet.data) = .ok field) (data : Bytes) :
    setup.numberIn packet data = Bits.field data (field.place span) field.bitWidth := by
  have hStart : ¬ setup.isGopStart packet := by
    have hMem := List.mem_of_getLast? hSpan
    simp only [isGopStart, hKey, hScan, Bool.false_or, Bool.and_eq_true, not_and]
    intro _ hAll
    exact hIdr (List.all_eq_true.mp hAll span hMem)
  rw [numberIn, if_neg hStart, FrameNum.lastField, hScan]
  simp [Except.toOption, hSpan, hField]

/-- The number that is read from a packet, as far as its slices are of one kind. -/
theorem Setup.numberIn_of_ofPacket {setup : Setup} {packet : Packet} {number : Nat}
    (hUniform : setup.Uniform packet) (hKey : ¬ packet.key)
    (hNumber : (FrameNum.ofPacket setup.sets packet.data).result = .ok number) :
    number = setup.numberIn packet packet.data := by
  rw [FrameNum.result_ofPacket] at hNumber
  obtain ⟨scan, hScan, hNumber⟩ := except_bind_eq_ok.mp hNumber
  have hLaid := FrameNum.slices_laid hScan
  obtain ⟨_, hEmpty, hLast⟩ := FrameNum.ofSlices_eq_ok hNumber
  by_cases hSome : FrameNum.slices scan = []
  · rw [hEmpty hSome, numberIn_of_idr hScan (by simp [hSome])]
  · have hSpan := List.getLast?_eq_some_getLast hSome
    have hMem := List.mem_of_getLast? hSpan
    have hSlice := hLast _ hSpan
    rcases hUniform scan hScan with hAll | hNone
    · rw [FrameNum.ofSlice, if_pos (hAll _ hMem)] at hSlice
      cases hSlice
      rw [numberIn_of_idr hScan hAll]
    · rw [FrameNum.ofSlice, if_neg (hNone _ hMem)] at hSlice
      obtain ⟨field, hField, hValue⟩ := except_bind_eq_ok.mp hSlice
      cases hValue
      rw [numberIn_of_slice hKey hScan hSpan (hNone _ hMem) hField]
      exact (FrameNum.ofPayload_field (hLaid.within _ hMem) hField).2.2.2

/-- A packet that comes out leaves its number behind. -/
theorem Delivers.lastFrameNum {f after : Filter} {packet out : Packet}
    (h : Delivers f packet (.ok out) after) (hUniform : f.setup.Uniform packet) :
    after.lastFrameNum = f.setup.numberIn packet out.data := by
  cases h with
  | key hKey => rw [Setup.numberIn_of_key hKey]
  | @endOfGop scan hKey _ hScan hEnd =>
      have hIdr : ∀ span ∈ FrameNum.slices scan, span.type.isIdr := by
        rcases hUniform scan hScan with hAll | hNone
        · exact hAll
        · rcases hEnd with hEmpty | ⟨span, hSpan, hRefresh⟩
          · simp [hEmpty]
          · exact absurd hRefresh (hNone span hSpan)
      rw [Setup.numberIn_of_idr hScan hIdr]
  | renumbered hKey _ hScan hSome hIdr hDone =>
      have hSpan := List.getLast?_eq_some_getLast hSome
      have hMem := List.mem_of_getLast? hSpan
      obtain ⟨hFields, _, hLast⟩ := Renumbered.ofSlices_done (FrameNum.slices_laid hScan) hDone
      obtain ⟨field, hField, hWritten⟩ := hFields _ hMem
      cases hLast _ field hSpan hField
      rw [Setup.numberIn_of_slice hKey hScan hSpan (hIdr _ hMem) hField]
      exact hWritten.symm
  | released hKey _ hNumber => exact Setup.numberIn_of_ofPacket hUniform hKey hNumber

/-- What a turn gave out. A skipped picture has its place in its run, from one on; other packets have
place zero. -/
def Tally.given (tally : Tally) : Turn → Option (Nat × Output)
  | .sent _ _ _ => none
  | .received before answer =>
    match before.state, answer.result with
    | .holding packet run, .ok out =>
      if 0 < run.remaining then some (tally.taken + 1, .skipped out)
      else some (0, .passed packet out)
    | _, _ => none

/-- All that was given out, in order. -/
def outputs (tally : Tally) : List Turn → List (Nat × Output)
  | [] => []
  | turn :: turns => (tally.given turn).toList ++ outputs (tally.count turn) turns

/-- A skipped picture has the number behind that of what came out before it exactly if it goes on with
its run, or if its run starts behind a packet; or if by chance the run that was lost filled the whole
range of numbers. -/
def Resumes (setup : Setup) (before behind : Nat × Output) : Prop :=
  behind.2.isSkipped →
    (behind.2.number setup = (before.2.number setup + 1) % 2 ^ setup.numberWidth ↔
      behind.1 ≠ 1 ∨ 2 ^ setup.numberWidth ∣ before.1)

/-- The number of the last picture is the one that is remembered, moved on by its place. -/
structure Remembers (setup : Setup) (f : Filter) (tally : Tally) (last : Nat × Output) : Prop where
  settled : f.Settled
  sameSetup : f.setup = setup
  number : last.2.number setup ≡ f.lastFrameNum + last.1 [MOD 2 ^ setup.numberWidth]
  uniform : ∀ packet run, f.state = .holding packet run → setup.Uniform packet
  next : 0 < f.pending.remaining → f.pending.nextFrameNum = f.lastFrameNum + tally.taken + 1
  place : f.state ≠ .idle → 0 < tally.taken → last.1 = tally.taken

variable {setup : Setup} {f : Filter} {tally : Tally} {last : Nat × Output}

/-- Taking a packet forgets nothing of the picture that came out last. -/
theorem Remembers.send (h : Remembers setup f tally last) {packet : Packet}
    (hUniform : setup.Uniform packet) :
    Remembers setup (f.send packet).filter (tally.count (f.turn (.send packet))) last := by
  by_cases hState : f.state = .idle
  · obtain ⟨_, hAfter⟩ := send_of_idle hState packet
    rw [Tally.count_send hState, hAfter]
    refine ⟨.inr ⟨packet, f.plan packet, rfl⟩, h.sameSetup, h.number, ?_, ?_, ?_⟩
    · intro held run hHeld
      cases hHeld
      exact hUniform
    · intro hSome
      exact (start_plan hSome).1
    · intro _ hNone
      contradiction
  · rw [Tally.count_send_of_busy hState, send_of_busy hState]
    exact h

/-- After a fault nothing is remembered of the pictures that went before the packet. -/
theorem Remembers.fault (h : Remembers setup f tally last) :
    Remembers setup { f with state := .idle } tally last where
  settled := .inl rfl
  sameSetup := h.sameSetup
  number := h.number
  uniform := by
    intro packet run hState
    cases hState
  next := by
    intro hSome
    contradiction
  place := by
    intro hBusy
    exact absurd rfl hBusy

/-- Of two pictures at places of runs that start at the same number, one has the number behind that of
the other exactly if its place is the next one, modulo the range of numbers. -/
theorem eq_succ_mod_iff {number start place next modulus : Nat}
    (h : number ≡ start + place [MOD modulus]) :
    (start + next + 1) % modulus = (number + 1) % modulus ↔ next ≡ place [MOD modulus] := by
  have hBehind : (number + 1) % modulus = (start + place + 1) % modulus := h.add_right 1
  rw [hBehind]
  constructor
  · intro hSame
    exact (Nat.ModEq.add_right_cancel' 1 hSame).add_left_cancel'
  · intro hSame
    exact (hSame.add_left start).add_right 1

/-- A skipped picture goes on from the one before it, and is the last one from then on. -/
theorem Remembers.skip {timeBase frameRate : Rational} (hChecked : setup.Checked timeBase frameRate)
    (h : Remembers setup f tally last) {packet skip : Packet} {run : SkipRun}
    (hState : f.state = .holding packet run) (hRun : 0 < run.remaining)
    (hSkip : setup.skip packet run = .ok skip) :
    Resumes setup last (tally.taken + 1, .skipped skip) ∧
      Remembers setup { f with state := .holding packet (run.next setup.duration) }
        { tally with written := tally.written + 1, taken := tally.taken + 1 }
        (tally.taken + 1, .skipped skip) := by
  have hPending : f.pending = run := by rw [pending, hState]
  have hBusy : f.state ≠ .idle := by simp [hState]
  have hNext := h.next
  rw [hPending] at hNext
  have hNumber := hChecked.number_of_skip hSkip
  rw [hNext hRun] at hNumber
  constructor
  · intro _
    rw [hNumber, eq_succ_mod_iff h.number]
    -- The first of a run starts from the remembered number, whatever has been given out since.
    rcases Nat.eq_zero_or_pos tally.taken with hFirst | hLater
    · rw [hFirst, Nat.ModEq.comm, Nat.modEq_zero_iff_dvd]
      simp
    · rw [h.place hBusy hLater]
      have hNotFirst : tally.taken + 1 ≠ 1 := by omega
      exact ⟨fun _ => .inl hNotFirst, fun _ => .refl _⟩
  · refine ⟨.inr ⟨_, _, rfl⟩, h.sameSetup, ?_, ?_, ?_, ?_⟩
    · rw [hNumber]
      exact Nat.mod_modEq _ _
    · intro held other hHeld
      cases hHeld
      exact h.uniform packet run hState
    · intro _
      show run.nextFrameNum + 1 = f.lastFrameNum + (tally.taken + 1) + 1
      rw [hNext hRun]
      omega
    · intro _ _
      rfl

/-- A packet that comes out is remembered as the last picture. -/
theorem Remembers.deliver (h : Remembers setup f tally last) {after : Filter} {packet out : Packet}
    {run : SkipRun} (hState : f.state = .holding packet run)
    (hDelivers : Delivers f packet (.ok out) after) (tally : Tally) :
    Remembers setup after tally (0, .passed packet out) := by
  obtain ⟨hIdle, hSetup, _⟩ := hDelivers.frame
  obtain rfl := h.sameSetup
  have hLast := hDelivers.lastFrameNum (h.uniform packet run hState)
  refine ⟨.inl hIdle, hSetup, ?_, ?_, ?_, ?_⟩
  · rw [hLast]
    exact .refl _
  · intro held other hHeld
    cases hIdle.symm.trans hHeld
  · intro hSome
    rw [pending, hIdle] at hSome
    contradiction
  · intro hBusy
    exact absurd hIdle hBusy

/-- A call of `receive` that gives nothing out keeps the last picture; one that does resumes from
it. -/
theorem Remembers.receive {timeBase frameRate : Rational}
    (hChecked : setup.Checked timeBase frameRate) (h : Remembers setup f tally last) :
    (tally.given (f.turn .receive) = none →
      Remembers setup f.receive.filter (tally.count (f.turn .receive)) last) ∧
    ∀ out, tally.given (f.turn .receive) = some out → Resumes setup last out ∧
      Remembers setup f.receive.filter (tally.count (f.turn .receive)) out := by
  have hReceives := receives h.settled
  simp only [Tally.given, Tally.count, turn]
  generalize f.receive.result = result, f.receive.filter = after at hReceives ⊢
  cases hReceives with
  | drained hState =>
      simp only [hState]
      exact ⟨fun _ => h, fun out hNone => absurd hNone (by simp)⟩
  | skip hState hRun hSkip =>
      obtain rfl := h.sameSetup
      simp only [hState, hRun, if_true]
      refine ⟨fun hNone => absurd hNone (by simp), fun out hOut => ?_⟩
      cases hOut
      exact h.skip hChecked hState hRun hSkip
  | skipFault hState hRun hSkip =>
      simp only [hState]
      exact ⟨fun _ => h.fault, fun out hNone => absurd hNone (by simp)⟩
  | due hState hRun hDelivers =>
      cases result with
      | ok out =>
          simp only [hState, hRun, Nat.lt_irrefl, if_false]
          refine ⟨fun hNone => absurd hNone (by simp), fun other hOther => ?_⟩
          cases hOther
          exact ⟨fun hSkipped => absurd hSkipped Bool.false_ne_true, h.deliver hState hDelivers _⟩
      | error fault =>
          obtain ⟨_, hAfter⟩ := Receives.of_error (.due hState hRun hDelivers) hState
          simp only [hAfter, hState]
          exact ⟨fun _ => h.fault, fun out hNone => absurd hNone (by simp)⟩

/-- From the last picture that was given out on, numbers go on as the places say. -/
theorem Remembers.isChain {timeBase frameRate : Rational} (hChecked : setup.Checked timeBase frameRate)
    (h : Remembers setup f tally last) {calls : List Call}
    (hUniform : ∀ packet, .send packet ∈ calls → setup.Uniform packet) :
    (last :: outputs tally (f.turns calls)).IsChain (Resumes setup) := by
  induction calls generalizing f tally last with
  | nil => exact .singleton last
  | cons call calls ih =>
      have hRest : ∀ packet, .send packet ∈ calls → setup.Uniform packet :=
        fun packet hSend => hUniform packet (List.mem_cons_of_mem _ hSend)
      rw [turns, outputs]
      cases call with
      | send packet =>
          exact ih (h.send (hUniform packet List.mem_cons_self)) hRest
      | receive =>
          obtain ⟨hNone, hSome⟩ := h.receive hChecked
          cases hGiven : tally.given (f.turn .receive) with
          | none => exact ih (hNone hGiven) hRest
          | some out =>
              obtain ⟨hResumes, hRemembers⟩ := hSome out hGiven
              exact List.isChain_cons_cons.mpr ⟨hResumes, ih hRemembers hRest⟩

/-- What the turns gave out is what the caller got, in the same order. -/
theorem map_packet_outputs (h : f.Settled) (calls : List Call) :
    (outputs tally (f.turns calls)).map (·.2.packet) = (f.turns calls).filterMap Turn.given := by
  induction calls generalizing f tally with
  | nil => rfl
  | cons call calls ih =>
      have hGiven : (tally.given (f.turn call)).map (·.2.packet) = (f.turn call).given := by
        cases call with
        | send packet => rfl
        | receive =>
            rcases h with hState | ⟨packet, run, hState⟩
            · simp [Tally.given, Turn.given, turn, hState, receive_of_idle hState, Except.toOption]
            · cases hResult : f.receive.result with
              | error fault => simp [Tally.given, Turn.given, turn, hState, hResult, Except.toOption]
              | ok out =>
                  by_cases hRun : 0 < run.remaining
                  · simp [Tally.given, Turn.given, turn, hState, hResult, hRun, Output.packet,
                      Except.toOption]
                  · simp [Tally.given, Turn.given, turn, hState, hResult, hRun, Output.packet,
                      Except.toOption]
      rw [turns, outputs, List.map_append, ih (turn_frame h call).1, List.filterMap_cons, ← hGiven]
      cases tally.given (f.turn call) with
      | none => rfl
      | some out => rfl

/-- A skipped picture has the number behind that of what came out before it, except where it starts a run
after the pictures of a run whose packet was lost. There the numbers of the lost run come again, unless
they made up whole rounds. -/
theorem number_isChain {info : StreamInfo} {timeBase frameRate : Rational}
    {templates : TemplateTable} {f : Filter}
    (hCreate : (create info timeBase frameRate templates).result = .ok f) (calls : List Call)
    (hUniform : ∀ packet, .send packet ∈ calls → f.setup.Uniform packet) :
    (outputs {} (f.turns calls)).map (·.2.packet) = (f.turns calls).filterMap Turn.given ∧
      (outputs {} (f.turns calls)).IsChain fun before behind => behind.2.isSkipped →
        (behind.2.number f.setup = (before.2.number f.setup + 1) % 2 ^ f.setup.numberWidth ↔
          behind.1 ≠ 1 ∨ 2 ^ f.setup.numberWidth ∣ before.1) := by
  obtain ⟨hStart, hChecked⟩ := checked_of_create hCreate
  have hState : f.state = .idle := by rw [hStart, start]
  -- A new filter is in the state that a key packet leaves behind.
  have hFirst : Remembers f.setup f {} (0, .passed { key := true } {}) := by
    refine ⟨.inl hState, rfl, ?_, ?_, ?_, ?_⟩
    · rw [Output.number, Setup.numberIn_of_key rfl, hStart, start]
      rfl
    · intro packet run hHeld
      cases hState.symm.trans hHeld
    · intro hSome
      rw [pending, hState] at hSome
      contradiction
    · intro hBusy
      exact absurd hState hBusy
  exact ⟨map_packet_outputs (.inl hState) calls, (hFirst.isChain hChecked hUniform).tail⟩

/-- Two pictures go before a packet that is cut off, and one before the packet behind it. -/
def sampleLost : List Call :=
  [.send { data := [0, 0, 0, 1, 0x65, 0x88, 0x86, 0xE6], dts := 0, key := true }, .receive,
    .send { data := [0, 0, 0, 1, 0x61, 0x9A], dts := 10800 }, .receive, .receive, .receive,
    .send { data := [0, 0, 0, 1, 0x61, 0x9A, 0x5A, 0xF0], dts := 18000 }, .receive, .receive]

/-- The packets that are sent are as a stream has them: slices of one kind, and one width of numbers. -/
theorem uniform_sampleLost (packet : Packet) (h : .send packet ∈ sampleLost) :
    sample.setup.Uniform packet ∧
      ∀ scan, Nal.scan sample.setup.sets.framing packet.data = .ok scan →
        ∀ span ∈ FrameNum.slices scan, ∀ field,
          FrameNum.ofPayload sample.setup.sets (span.payload packet.data) = .ok field →
            field.bitWidth = sample.setup.numberWidth := by
  simp only [sampleLost, List.mem_cons, Call.send.injEq, reduceCtorEq, List.not_mem_nil, or_false,
    false_or] at h
  rcases h with rfl | rfl | rfl
  all_goals decide +kernel

/-- The numbers 1 and 2 of the lost run are followed by 1 again. -/
theorem number_isChain_sampleLost :
    (outputs {} (sample.turns sampleLost)).map (fun out => (out.1, out.2.number sample.setup))
        = [(0, 0), (1, 1), (2, 2), (1, 1), (0, 5)] ∧
      (outputs {} (sample.turns sampleLost)).IsChain fun before behind => behind.2.isSkipped →
        (behind.2.number sample.setup
            = (before.2.number sample.setup + 1) % 2 ^ sample.setup.numberWidth ↔
          behind.1 ≠ 1 ∨ 2 ^ sample.setup.numberWidth ∣ before.1) := by
  refine ⟨by decide +kernel, (number_isChain create_sample sampleLost ?_).2⟩
  intro packet h
  exact (uniform_sampleLost packet h).1

/-- Number 1 comes right behind number 2. -/
theorem number_repeats_sampleLost :
    (create sampleInfo ⟨1, 90000⟩ ⟨25, 1⟩ []).result = .ok sample ∧
      (∀ packet, .send packet ∈ sampleLost → sample.setup.Uniform packet ∧
        ∀ scan, Nal.scan sample.setup.sets.framing packet.data = .ok scan →
          ∀ span ∈ FrameNum.slices scan, ∀ field,
            FrameNum.ofPayload sample.setup.sets (span.payload packet.data) = .ok field →
              field.bitWidth = sample.setup.numberWidth) ∧
      ¬ (outputs {} (sample.turns sampleLost)).IsChain fun before behind => behind.2.isSkipped →
        behind.2.number sample.setup
          = (before.2.number sample.setup + 1) % 2 ^ sample.setup.numberWidth :=
  ⟨create_sample, uniform_sampleLost, by decide +kernel⟩

end Filter

end Cadence
