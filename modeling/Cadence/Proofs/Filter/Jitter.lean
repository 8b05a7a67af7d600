import Cadence.Proofs.Filter.Spacing

/-!
Packets that are not quite on time. A gap is measured from the time of the packet before, not from the
even rhythm of the pictures, so the deviations of two neighbours add up. A stream without a missing
picture goes through untouched exactly if no packet falls back behind the one before it by half a
duration or more (`drainAll_passed_iff`).
-/

namespace Cadence

namespace Filter

/-- No picture is missing between two packets. -/
def Setup.Prompt (setup : Setup) (sent packet : Packet) : Prop :=
  (plan { start setup with lastDts := sent.dts } packet).remaining = 0

/-- The filter has given out all it was sent, the last packet at the time of `sent`, and moves no
numbers. -/
structure Unmoved (setup : Setup) (f : Filter) (sent : Packet) : Prop where
  sameSetup : f.setup = setup
  idle : f.state = .idle
  last : f.lastDts = sent.dts
  adjustment : f.adjustment = 0

section Step

variable {setup : Setup} {f : Filter} {sent packet : Packet}

/-- How many pictures are missing depends on the time of the last packet, and on nothing else that a
filter remembers. -/
theorem Unmoved.prompt_iff (h : Unmoved setup f sent) :
    setup.Prompt sent packet ↔ (f.plan packet).remaining = 0 := by
  obtain rfl := h.sameSetup
  have hGap : gap { start f.setup with lastDts := f.lastDts } packet.dts = f.gap packet.dts := rfl
  rw [Setup.Prompt, ← h.last]
  unfold plan
  dsimp only
  rw [hGap]
  split
  · rfl
  · split <;> rfl

/-- A packet that can be read is given out as it is, as long as no numbers are moved. -/
theorem deliver_of_readable (hAdjustment : f.adjustment = 0)
    (hRead : packet.key ∨ (FrameNum.ofPacket f.setup.sets packet.data).result.isOk) :
    (f.deliver packet).result = .ok packet ∧ (f.deliver packet).filter.adjustment = 0 := by
  have hNone : ¬ 0 < f.adjustment := by simp [hAdjustment]
  by_cases hKey : packet.key
  · rw [deliver, if_pos hKey]
    exact ⟨rfl, rfl⟩
  · rw [deliver, if_neg hKey, if_neg hNone, release, if_neg hKey]
    have hNumber := hRead.resolve_left hKey
    dsimp only
    cases hResult : (FrameNum.ofPacket f.setup.sets packet.data).result with
    | ok number => exact ⟨rfl, hAdjustment⟩
    | error fault =>
        rw [hResult] at hNumber
        cases hNumber

/-- When a packet comes out and nothing is held behind it, it is all that comes out. -/
theorem receiveAll_of_last {out : Packet} (hOut : f.receive.result = .ok out)
    (hIdle : f.receive.filter.state = .idle) :
    f.receiveAll.result = .ok [out] ∧ f.receiveAll.filter = f.receive.filter := by
  obtain ⟨hRest, hAfter⟩ := receiveAll_of_idle hIdle
  obtain ⟨hResult, hFilter⟩ := receiveAll_of_ok hOut
  rw [hRest] at hResult
  exact ⟨hResult, hFilter.trans hAfter⟩

/-- A packet before which no picture is missing goes through alone, and leaves the filter as unmoved
as before. -/
theorem Unmoved.step (h : Unmoved setup f sent) (hPrompt : setup.Prompt sent packet)
    (hRead : packet.key ∨ (FrameNum.ofPacket setup.sets packet.data).result.isOk) :
    (f.drain packet).result = .ok [packet] ∧ Unmoved setup (f.drain packet).filter packet := by
  have hNone := h.prompt_iff.mp hPrompt
  obtain rfl := h.sameSetup
  have hZero : (f.accept packet).adjustment = 0 := by
    show f.adjustment + UInt32.ofNat (f.plan packet).remaining = 0
    rw [hNone, h.adjustment]
    rfl
  have hReceive := @receive_of_due (f.accept packet) packet (f.plan packet) rfl hNone
  obtain ⟨hOut, hLeft⟩ := deliver_of_readable hZero hRead
  obtain ⟨hIdle, hSetup, hLast⟩ := (delivers (f.accept packet) packet).frame
  rw [← hReceive] at hOut hLeft hIdle hSetup hLast
  obtain ⟨hAll, hAfter⟩ := receiveAll_of_last hOut hIdle
  obtain ⟨hSent, hAccept⟩ := send_of_idle h.idle packet
  have hDrain : (f.drain packet).result = (f.accept packet).receiveAll.result ∧
      (f.drain packet).filter = (f.accept packet).receiveAll.filter := by
    unfold drain
    simp only [hSent, hAccept, and_self]
  rw [hDrain.1, hDrain.2, hAfter]
  exact ⟨hAll, hSetup, hIdle, hLast, hLeft⟩

/-- If a packet comes out alone, none was missing before it. -/
theorem Unmoved.prompt_of_passed (h : Unmoved setup f sent) {drained : List Packet}
    {rest outputs : List Output} (hDrained : (f.drain packet).result = .ok drained)
    (hOutputs : label packet drained ++ rest = .passed packet packet :: outputs) :
    setup.Prompt sent packet := by
  have hDrains := drains h.idle packet
  rw [hDrained] at hDrains
  obtain ⟨skips, last, out, rfl, hSkips, hLast, _⟩ := hDrains.of_ok
  have hLength := hSkips.length_add_remaining
  rw [label_concat] at hOutputs
  cases skips with
  | nil => exact h.prompt_iff.mpr (by rw [← hLength, hLast]; rfl)
  | cons skip skips => cases hOutputs

end Step

/-- Packets go through untouched exactly if no picture is missing between any two of them. -/
theorem Unmoved.drainAll_iff {setup : Setup} {f : Filter} {sent : Packet} {packets : List Packet}
    (h : Unmoved setup f sent)
    (hRead : ∀ packet ∈ packets,
      packet.key ∨ (FrameNum.ofPacket setup.sets packet.data).result.isOk) :
    f.drainAll packets = .ok (packets.map fun packet => .passed packet packet) ↔
      (sent :: packets).IsChain setup.Prompt := by
  induction packets generalizing f sent with
  | nil => exact ⟨fun _ => List.isChain_singleton sent, fun _ => rfl⟩
  | cons packet packets ih =>
      obtain ⟨hHead, hTail⟩ := List.forall_mem_cons.mp hRead
      constructor
      · intro hOutputs
        obtain ⟨drained, hDrained, hOutputs⟩ := except_bind_eq_ok.mp hOutputs
        obtain ⟨rest, hRest, hOutputs⟩ := except_bind_eq_ok.mp hOutputs
        have hPrompt := h.prompt_of_passed hDrained (Except.ok.inj hOutputs)
        obtain ⟨hAlone, hAfter⟩ := h.step hPrompt hHead
        cases hAlone.symm.trans hDrained
        obtain rfl : rest = _ := (List.cons.inj (Except.ok.inj hOutputs)).2
        exact List.isChain_cons_cons.mpr ⟨hPrompt, (ih hAfter hTail).mp hRest⟩
      · intro hChain
        obtain ⟨hPrompt, hChain⟩ := List.isChain_cons_cons.mp hChain
        obtain ⟨hAlone, hAfter⟩ := h.step hPrompt hHead
        rw [drainAll, hAlone]
        show ((f.drain packet).filter.drainAll packets >>= fun rest => _) = _
        rw [(ih hAfter hTail).mpr hChain]
        rfl

/-- The time from one packet to the next can be compared with a duration without running off the range
of time stamps. -/
structure Comparable (duration sent dts : ℤ) : Prop where
  expected : Ticks.InRange (sent + duration)
  late : Ticks.InRange (dts - (sent + duration))
  rounded : Ticks.InRange (dts - (sent + duration) + duration / 2)

instance (duration sent dts : ℤ) : Decidable (Comparable duration sent dts) :=
  decidable_of_iff
    (Ticks.InRange (sent + duration) ∧ Ticks.InRange (dts - (sent + duration)) ∧
      Ticks.InRange (dts - (sent + duration) + duration / 2))
    ⟨fun ⟨hExpected, hLate, hRounded⟩ => ⟨hExpected, hLate, hRounded⟩,
      fun ⟨hExpected, hLate, hRounded⟩ => ⟨hExpected, hLate, hRounded⟩⟩

/-- Less than half a duration late counts as on time. -/
theorem toNat_tdiv_eq_zero_iff {late duration : ℤ} (h : 0 < duration) :
    ((late + duration / 2).tdiv duration).toNat = 0 ↔ 2 * late < duration := by
  obtain ⟨hAbove, hBelow⟩ := @toNat_tdiv_mul (late + duration / 2) duration h
  constructor
  · intro hNone
    rw [hNone] at hAbove
    omega
  · intro hEarly
    by_contra hSome
    have hOne : 1 ≤ ((late + duration / 2).tdiv duration).toNat := by omega
    have hRoom : duration ≤ ((late + duration / 2).tdiv duration).toNat * duration :=
      le_mul_of_one_le_left h.le (by exact_mod_cast hOne)
    have := hBelow (by omega)
    omega

/-- A packet that is late by less than a duration is on time if it is late by less than half of one. -/
theorem Setup.prompt_iff_of_late {setup : Setup} {sent packet : Packet} {late : ℤ}
    (hSent : sent.dts ≠ Ticks.unset) (hPacket : packet.dts ≠ Ticks.unset)
    (hTimes : Comparable setup.duration.toInt sent.dts.toInt packet.dts.toInt)
    (hLate : packet.dts.toInt - (sent.dts.toInt + setup.duration.toInt) = late)
    (hNear : late < setup.duration.toInt) :
    setup.Prompt sent packet ↔ 2 * late < setup.duration.toInt := by
  have hPos := duration_pos_toInt setup
  have hShort : (packet.dts.toInt - (sent.dts.toInt + setup.duration.toInt)
      + setup.duration.toInt / 2).tdiv setup.duration.toInt ≤ 1000 := by
    have hBelow := (@toNat_tdiv_mul (late + setup.duration.toInt / 2) setup.duration.toInt hPos).2
    rw [hLate]
    by_contra hLong
    have hTwo : 2 ≤ ((late + setup.duration.toInt / 2).tdiv setup.duration.toInt).toNat := by omega
    have hRoom : 2 * setup.duration.toInt
        ≤ ((late + setup.duration.toInt / 2).tdiv setup.duration.toInt).toNat
            * setup.duration.toInt :=
      mul_le_mul_of_nonneg_right (by exact_mod_cast hTwo) hPos.le
    have := hBelow (by omega)
    omega
  have hTimely : Timely setup.duration.toInt sent.dts.toInt packet.dts.toInt :=
    ⟨hTimes.expected, hTimes.late, hTimes.rounded, hShort⟩
  have hPlan := (@plan_of_timely { start setup with lastDts := sent.dts } packet hSent hPacket
    hTimely).1
  rw [Setup.Prompt, hPlan, toInt_gap hTimely]
  show (_ : ℤ).toNat = 0 ↔ _
  rw [show (start setup).setup = setup from rfl, hLate]
  exact toNat_tdiv_eq_zero_iff hPos

/-- A packet without a time is followed by no gap. -/
theorem Setup.prompt_of_unset {setup : Setup} {sent packet : Packet}
    (hSent : sent.dts = Ticks.unset) : setup.Prompt sent packet := by
  have hPlan : plan { start setup with lastDts := sent.dts } packet = {} := if_pos (.inl hSent)
  rw [Setup.Prompt, hPlan]

/-- What counts is by how much the second packet is further off its time than the first one. -/
theorem Setup.prompt_iff_of_errors {setup : Setup} {sent packet : Packet} {time before behind : ℤ}
    (hSent : sent.dts.toInt = time + before)
    (hPacket : packet.dts.toInt = time + setup.duration.toInt + behind)
    (hBefore : 2 * |before| < setup.duration.toInt) (hBehind : 2 * |behind| < setup.duration.toInt)
    (hRange : sent.dts ≠ Ticks.unset →
      Comparable setup.duration.toInt sent.dts.toInt packet.dts.toInt) :
    setup.Prompt sent packet ↔
      sent.dts = Ticks.unset ∨ 2 * (behind - before) < setup.duration.toInt := by
  by_cases hUnset : sent.dts = Ticks.unset
  · exact iff_of_true (Setup.prompt_of_unset hUnset) (.inl hUnset)
  · have hLowest := neg_abs_le before
    have hHighest := le_abs_self before
    have hLow := neg_abs_le behind
    have hHigh := le_abs_self behind
    have hSet : packet.dts ≠ Ticks.unset := by
      intro hNone
      have hFirst : packet.dts.toInt = Int64.minValue.toInt := by
        rw [hNone]
        rfl
      have := Int64.minValue_le_toInt sent.dts
      omega
    have hLate : packet.dts.toInt - (sent.dts.toInt + setup.duration.toInt) = behind - before := by
      rw [hSent, hPacket]
      ring
    rw [Setup.prompt_iff_of_late hUnset hSet (hRange hUnset) hLate (by omega), or_iff_right hUnset]

/-- In a created filter only the gaps between the packets count, as no time is known before them. -/
theorem drainAll_iff_of_create {info : StreamInfo} {timeBase frameRate : Rational}
    {templates : TemplateTable} {f : Filter} {packets : List Packet}
    (hCreate : (create info timeBase frameRate templates).result = .ok f)
    (hRead : ∀ packet ∈ packets, packet.key ∨
      (FrameNum.ofPacket f.setup.sets packet.data).result.isOk) :
    f.drainAll packets = .ok (packets.map fun packet => .passed packet packet) ↔
      packets.IsChain f.setup.Prompt := by
  have hStart := (checked_of_create hCreate).1
  have hFresh : Unmoved f.setup f {} := ⟨rfl, by rw [hStart, start], by rw [hStart, start],
    by rw [hStart, start]⟩
  rw [hFresh.drainAll_iff hRead]
  cases packets with
  | nil => simp
  | cons packet packets =>
      exact List.isChain_cons_cons.trans (and_iff_right (Setup.prompt_of_unset rfl))

/-- Packets come in an even rhythm, each less than half a duration off its time. None of them is missing,
and they all go through untouched exactly if the deviation never grows by half a duration from one packet
to the next. It never does if they are all less than a quarter of a duration off. -/
theorem drainAll_passed_iff {info : StreamInfo} {timeBase frameRate : Rational}
    {templates : TemplateTable} {f : Filter} {packets : List Packet} {first : ℤ} {error : ℕ → ℤ}
    (hCreate : (create info timeBase frameRate templates).result = .ok f)
    (hTimes : ∀ i (h : i < packets.length),
      packets[i].dts.toInt = first + i * f.setup.duration.toInt + error i)
    (hNear : ∀ i < packets.length, 2 * |error i| < f.setup.duration.toInt)
    (hRange : packets.IsChain fun sent packet => sent.dts ≠ Ticks.unset →
      Comparable f.setup.duration.toInt sent.dts.toInt packet.dts.toInt)
    (hRead : ∀ packet ∈ packets, packet.key ∨
      (FrameNum.ofPacket f.setup.sets packet.data).result.isOk) :
    (f.drainAll packets = .ok (packets.map fun packet => .passed packet packet) ↔
      ∀ i (h : i + 1 < packets.length), packets[i].dts = Ticks.unset ∨
        2 * (error (i + 1) - error i) < f.setup.duration.toInt) ∧
    ((∀ i < packets.length, 4 * |error i| < f.setup.duration.toInt) →
      f.drainAll packets = .ok (packets.map fun packet => .passed packet packet)) := by
  have hIff : f.drainAll packets = .ok (packets.map fun packet => .passed packet packet) ↔
      ∀ i (h : i + 1 < packets.length), packets[i].dts = Ticks.unset ∨
        2 * (error (i + 1) - error i) < f.setup.duration.toInt := by
    rw [drainAll_iff_of_create hCreate hRead, List.isChain_iff_getElem]
    refine forall₂_congr fun i hNext => ?_
    have hNow : i < packets.length := Nat.lt_of_succ_lt hNext
    refine Setup.prompt_iff_of_errors (hTimes i hNow) ?_ (hNear i hNow) (hNear (i + 1) hNext)
      (List.isChain_iff_getElem.mp hRange i hNext)
    rw [hTimes (i + 1) hNext]
    push_cast
    ring
  refine ⟨hIff, fun hQuarter => hIff.mpr fun i hNext => .inr ?_⟩
  have hBefore := hQuarter i (by omega)
  have hBehind := hQuarter (i + 1) hNext
  have hLow := neg_abs_le (error i)
  have hHigh := le_abs_self (error (i + 1))
  omega

/-- The second packet is late behind the first one, which is early. -/
def sampleUneven (late : Ticks) : List Packet :=
  [sampleKey 0, samplePicture 1 (4500 + late)]

/-- How far these packets are off a rhythm of 3600 ticks that starts at 900. -/
def sampleErrors (late : Ticks) (i : ℕ) : ℤ :=
  if i = 0 then -900 else late.toInt

/-- At 899 ticks all packets go through untouched. -/
theorem drainAll_passed_iff_sampleUneven :
    sample.setup.duration.toInt = 3600 ∧
      sample.drainAll (sampleUneven 899)
        = .ok ((sampleUneven 899).map fun packet => .passed packet packet) := by
  refine ⟨by decide +kernel, ?_⟩
  refine (@drainAll_passed_iff _ _ _ _ sample (sampleUneven 899) 900 (sampleErrors 899)
    create_sample (by decide +kernel) (by decide +kernel) (by decide +kernel)
    (by decide +kernel)).1.mpr ?_
  intro i hNext
  obtain rfl : i = 0 := Nat.lt_one_iff.mp (Nat.lt_of_succ_lt_succ hNext)
  exact .inr (by decide +kernel)

/-- One tick later a picture is put in, though neither packet is off its time by half a duration. -/
theorem drainAll_sampleUneven :
    (create sampleInfo ⟨1, 90000⟩ ⟨25, 1⟩ []).result = .ok sample ∧
      (∀ i (h : i < (sampleUneven 900).length), (sampleUneven 900)[i].dts.toInt
        = 900 + i * sample.setup.duration.toInt + sampleErrors 900 i) ∧
      (∀ i < (sampleUneven 900).length, 2 * |sampleErrors 900 i| < sample.setup.duration.toInt) ∧
      ((sampleUneven 900).IsChain fun sent packet =>
        Comparable sample.setup.duration.toInt sent.dts.toInt packet.dts.toInt) ∧
      (∀ packet ∈ sampleUneven 900,
        (FrameNum.ofPacket sample.setup.sets packet.data).result.isOk) ∧
      ∃ outputs, sample.drainAll (sampleUneven 900) = .ok outputs ∧
        outputs.map Output.isSkipped = [false, true, false] :=
  ⟨create_sample, by decide +kernel, by decide +kernel, by decide +kernel, by decide +kernel,
    by decide +kernel⟩

end Filter

end Cadence
