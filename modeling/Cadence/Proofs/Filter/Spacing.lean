import Cadence.Proofs.Filter.Created
import Cadence.Proofs.Filter.Drain
import Cadence.Proofs.Rational.Rounding
import Cadence.Proofs.Ticks

/-!
The times of what comes out. Skipped pictures follow at exactly the duration of a picture, and no two
packets are one and a half durations or more apart. Missing pictures are counted by a division that
cuts off towards zero, so that packets that come early are never taken for late ones.
-/

namespace Cadence

namespace Filter

/-- Between two packets nothing runs off the range of time stamps, and the gap is not too long to be
filled. -/
structure Timely (duration sent dts : ℤ) : Prop where
  expected : Ticks.InRange (sent + duration)
  late : Ticks.InRange (dts - (sent + duration))
  rounded : Ticks.InRange (dts - (sent + duration) + duration / 2)
  short : (dts - (sent + duration) + duration / 2).tdiv duration ≤ 1000

instance (duration sent dts : ℤ) : Decidable (Timely duration sent dts) :=
  decidable_of_iff
    (Ticks.InRange (sent + duration) ∧ Ticks.InRange (dts - (sent + duration)) ∧
      Ticks.InRange (dts - (sent + duration) + duration / 2) ∧
      (dts - (sent + duration) + duration / 2).tdiv duration ≤ 1000)
    ⟨fun ⟨hExpected, hLate, hRounded, hShort⟩ => ⟨hExpected, hLate, hRounded, hShort⟩,
      fun ⟨hExpected, hLate, hRounded, hShort⟩ => ⟨hExpected, hLate, hRounded, hShort⟩⟩

def Output.isSkipped : Output → Bool
  | .skipped _ => true
  | .passed _ _ => false

def Output.dts (output : Output) : ℤ :=
  output.packet.dts.toInt

/-- The time from one packet that comes out to the next. Half a duration is rounded up. -/
structure Output.Spaced (duration : ℤ) (before behind : Output) : Prop where
  skip : behind.isSkipped → behind.dts = before.dts + duration
  early : before.isSkipped → ¬ behind.isSkipped → (duration + 1) / 2 ≤ behind.dts - before.dts
  late : ¬ behind.isSkipped → behind.dts - before.dts < duration + (duration + 1) / 2
  noHole : 2 * (behind.dts - before.dts) < 3 * duration

section Plan

variable {f : Filter} {packet : Packet}

theorem duration_pos_toInt (setup : Setup) : 0 < setup.duration.toInt :=
  Int64.lt_iff_toInt_lt.mp setup.duration_pos

/-- The gap that is computed is the quotient of the integers. -/
theorem toInt_gap (h : Timely f.setup.duration.toInt f.lastDts.toInt packet.dts.toInt) :
    (f.gap packet.dts).toInt
      = (packet.dts.toInt - (f.lastDts.toInt + f.setup.duration.toInt)
          + f.setup.duration.toInt / 2).tdiv f.setup.duration.toInt := by
  have hPos := duration_pos_toInt f.setup
  have hHalf : (f.setup.duration / 2).toInt = f.setup.duration.toInt / 2 := by
    rw [Ticks.toInt_div (by decide)]
    exact Int.tdiv_eq_ediv_of_nonneg hPos.le
  have hExpected : f.expectedDts.toInt = f.lastDts.toInt + f.setup.duration.toInt :=
    Ticks.toInt_addSat h.expected
  have hLate : (Ticks.subSat packet.dts f.expectedDts).toInt
      = packet.dts.toInt - (f.lastDts.toInt + f.setup.duration.toInt) := by
    rw [Ticks.toInt_subSat (hExpected ▸ h.late), hExpected]
  rw [gap, Ticks.toInt_div f.setup.duration_pos,
    Ticks.toInt_addSat (by rw [hLate, hHalf]; exact h.rounded), hLate, hHalf]

/-- As many pictures are planned as are missing, from the time at which the first was expected. -/
theorem plan_of_timely (hLast : f.lastDts ≠ Ticks.unset) (hDts : packet.dts ≠ Ticks.unset)
    (h : Timely f.setup.duration.toInt f.lastDts.toInt packet.dts.toInt) :
    (f.plan packet).remaining = (f.gap packet.dts).toInt.toNat ∧
      (0 < (f.plan packet).remaining →
        (f.plan packet).nextDts.toInt = f.lastDts.toInt + f.setup.duration.toInt) := by
  have hShort : f.gap packet.dts ≤ maxGap := by
    rw [Int64.le_iff_toInt_le, toInt_gap h]
    exact h.short
  rw [plan, if_neg (not_or.mpr ⟨hLast, hDts⟩)]
  by_cases hGap : 0 < f.gap packet.dts
  · rw [if_pos ⟨hGap, hShort⟩]
    exact ⟨rfl, fun _ => Ticks.toInt_addSat h.expected⟩
  · rw [if_neg fun hBoth => hGap hBoth.1]
    have hNone : (f.gap packet.dts).toInt ≤ 0 := by
      simpa [Int64.lt_iff_toInt_lt] using hGap
    exact ⟨(Int.toNat_of_nonpos hNone).symm, fun hSome => absurd hSome (Nat.lt_irrefl 0)⟩

end Plan

/-- Counting whole durations stops short of one too few, and if it counts any, of one too many. -/
theorem toNat_tdiv_mul {x duration : ℤ} (h : 0 < duration) :
    x < ((x.tdiv duration).toNat + 1) * duration ∧
      (0 < (x.tdiv duration).toNat → (x.tdiv duration).toNat * duration ≤ x) := by
  rcases le_or_gt 0 x with hLate | hEarly
  · have hCount : ((x.tdiv duration).toNat : ℤ) = x / duration := by
      rw [Int.tdiv_eq_ediv_of_nonneg hLate, Int.toNat_of_nonneg (Int.ediv_nonneg hLate h.le)]
    rw [hCount]
    exact ⟨Int.lt_ediv_add_one_mul_self x h, fun _ => Int.ediv_mul_le x h.ne'⟩
  · have hNone : (x.tdiv duration).toNat = 0 := by
      have hMirror : 0 ≤ (-x).tdiv duration := Int.tdiv_nonneg (by omega) h.le
      rw [Int.neg_tdiv] at hMirror
      omega
    rw [hNone]
    exact ⟨by omega, fun hSome => absurd hSome (Nat.lt_irrefl 0)⟩

/-- What is left of a run goes on from the packet that came out last, on the way from `start` to
`goal`. -/
structure SkipRun.Paced (duration start goal : ℤ) (run : SkipRun) (before : Output) : Prop where
  next : 0 < run.remaining → run.nextDts.toInt = before.dts + duration
  way : before.dts + run.remaining * duration = goal
  later : start ≤ before.dts
  started : before.isSkipped → start + duration ≤ before.dts

/-- A skipped picture comes one duration after what came out before it. -/
theorem SkipRun.Paced.skip {setup : Setup} {packet skip : Packet} {start goal : ℤ} {run : SkipRun}
    {before : Output} (h : run.Paced setup.duration.toInt start goal before)
    (hGoal : goal ≤ Int64.maxValue.toInt) (hRun : 0 < run.remaining)
    (hSkip : setup.skip packet run = .ok skip) :
    before.Spaced setup.duration.toInt (.skipped skip) ∧
      (run.next setup.duration).Paced setup.duration.toInt start goal (.skipped skip) := by
  have hPos := duration_pos_toInt setup
  have hTime : (Output.skipped skip).dts = before.dts + setup.duration.toInt := by
    obtain ⟨data, _, rfl⟩ := Setup.skip_eq_ok hSkip
    exact h.next hRun
  have hLess : ((run.next setup.duration).remaining : ℤ) = run.remaining - 1 := by
    simp only [SkipRun.next]
    omega
  have hWay : (Output.skipped skip).dts
      + (run.next setup.duration).remaining * setup.duration.toInt = goal := by
    rw [hTime, hLess, ← h.way]
    ring
  refine ⟨⟨fun _ => hTime, fun _ hReal => absurd rfl hReal, fun hReal => absurd rfl hReal, ?_⟩,
    fun hMore => ?_, hWay, ?_, fun _ => ?_⟩
  · omega
  · have hRoom : setup.duration.toInt
        ≤ (run.next setup.duration).remaining * setup.duration.toInt :=
      le_mul_of_one_le_left hPos.le (by exact_mod_cast hMore)
    have hNext := h.next hRun
    have hBelow := Int64.minValue_le_toInt run.nextDts
    show (Ticks.addSat run.nextDts setup.duration).toInt = _
    rw [Ticks.toInt_addSat ⟨by omega, by omega⟩, hNext, hTime]
  · have := h.later
    omega
  · have := h.later
    omega

/-- The packet behind a run comes when the next picture would have come, up to half a duration. -/
theorem SkipRun.Paced.passed {duration sent dts : ℤ} (hPos : 0 < duration) {last : SkipRun}
    {count : ℕ}
    (hCount : count = ((dts - (sent + duration) + duration / 2).tdiv duration).toNat)
    {packet out : Packet} (hTime : out.dts.toInt = dts) {final : Output}
    (h : last.Paced duration sent (sent + count * duration) final) (hLast : last.remaining = 0) :
    final.Spaced duration (.passed packet out) := by
  obtain ⟨hAbove, hBelow⟩ := @toNat_tdiv_mul (dts - (sent + duration) + duration / 2) duration hPos
  rw [← hCount] at hAbove hBelow
  have hFinal : final.dts = sent + count * duration := by
    have hWay := h.way
    rw [hLast] at hWay
    simpa using hWay
  have hBehind : (Output.passed packet out).dts = dts := hTime
  have hSum : ((count : ℤ) + 1) * duration = count * duration + duration := by ring
  refine ⟨fun hSkip => absurd hSkip Bool.false_ne_true, fun hSkip _ => ?_, fun _ => ?_, ?_⟩
  · have hStarted := h.started hSkip
    have hSome : 0 < count := by
      by_contra hNone
      obtain rfl : count = 0 := by omega
      simp only [Nat.cast_zero, zero_mul] at hFinal
      omega
    have := hBelow hSome
    omega
  · omega
  · omega

/-- The filter expects the next packet one duration after the one that came out last. -/
structure OnTime (setup : Setup) (f : Filter) (sent : Packet) (before : Output) : Prop where
  sameSetup : f.setup = setup
  idle : f.state = .idle
  last : f.lastDts = sent.dts
  time : before.dts = sent.dts.toInt
  passed : ¬ before.isSkipped

/-- A packet that comes out is the one from which the next gap is counted. -/
theorem Delivers.onTime {f after : Filter} {packet out : Packet}
    (h : Delivers (f.accept packet) packet (.ok out) after) :
    OnTime f.setup after packet (.passed packet out) := by
  obtain ⟨hIdle, hSetup, hLast⟩ := h.frame
  refine ⟨hSetup, hIdle, hLast, ?_, Bool.false_ne_true⟩
  show out.dts.toInt = packet.dts.toInt
  rw [h.attributes]

/-- Packets with set times, one not too long behind the other. -/
structure Setup.Meets (setup : Setup) (sent packet : Packet) : Prop where
  sentSet : sent.dts ≠ Ticks.unset
  packetSet : packet.dts ≠ Ticks.unset
  timely : Timely setup.duration.toInt sent.dts.toInt packet.dts.toInt

/-- What comes out for one packet keeps the distances. -/
theorem OnTime.step {setup : Setup} {f after : Filter} {sent packet out : Packet} {before : Output}
    {skips : List Packet} {last : SkipRun} (h : OnTime setup f sent before)
    (hMeets : setup.Meets sent packet) (hSkips : Skips f.setup packet (f.plan packet) skips last)
    (hLast : last.remaining = 0) (hDelivers : Delivers (f.accept packet) packet (.ok out) after) :
    (before :: (skips.map .skipped ++ [.passed packet out])).IsChain
        (Output.Spaced setup.duration.toInt) ∧
      OnTime setup after packet (.passed packet out) := by
  obtain rfl := h.sameSetup
  have hPos := duration_pos_toInt f.setup
  have hTimely : Timely f.setup.duration.toInt f.lastDts.toInt packet.dts.toInt := by
    rw [h.last]
    exact hMeets.timely
  obtain ⟨hCount, hNext⟩ := plan_of_timely (h.last ▸ hMeets.sentSet) hMeets.packetSet hTimely
  rw [toInt_gap hTimely, h.last] at hCount
  rw [h.last] at hNext
  have hGoal : sent.dts.toInt + (f.plan packet).remaining * f.setup.duration.toInt
      ≤ Int64.maxValue.toInt := by
    have hBelow := (@toNat_tdiv_mul (packet.dts.toInt - (sent.dts.toInt + f.setup.duration.toInt)
      + f.setup.duration.toInt / 2) _ hPos).2
    rw [← hCount] at hBelow
    have hSent := sent.dts.toInt_le
    have hPacket := packet.dts.toInt_le
    rcases Nat.eq_zero_or_pos (f.plan packet).remaining with hNone | hSome
    · simpa [hNone] using hSent
    · have := hBelow hSome
      omega
  have hFirst : (f.plan packet).Paced f.setup.duration.toInt sent.dts.toInt
      (sent.dts.toInt + (f.plan packet).remaining * f.setup.duration.toInt) before := by
    refine ⟨fun hRun => ?_, ?_, h.time.ge, fun hSkipped => absurd hSkipped h.passed⟩
    · rw [hNext hRun, h.time]
    · rw [h.time]
  have hTime : out.dts.toInt = packet.dts.toInt := by rw [hDelivers.attributes]
  refine ⟨hSkips.isChain ?_ hFirst ?_, hDelivers.onTime⟩
  · intro rest final skip hPaced hRun hSkip
    exact hPaced.skip hGoal hRun hSkip
  · intro final hPaced
    exact hPaced.passed hPos hCount hTime hLast

/-- Even distances are kept up by draining one packet after another. -/
theorem keeps_spaced (setup : Setup) :
    Keeps (Output.Spaced setup.duration.toInt) setup.Meets (OnTime setup) where
  idle := by
    intro f sent before hOnTime
    exact hOnTime.idle
  step := by
    intro f sent before packet skips last out after hOnTime hMeets hSkips hLast hDelivers
    exact hOnTime.step hMeets hSkips hLast hDelivers

/-- One picture lasts one over the frame rate, counted in the time base. -/
theorem duration_eq {frameRate timeBase : Rational} {duration : Ticks} {hPos : 0 < duration}
    (h : frameDuration frameRate timeBase = .ok ⟨duration, hPos⟩) :
    duration.toInt
      = roundAway ((frameRate.den.toInt * timeBase.den.toInt : ℚ)
          / (frameRate.num.toInt * timeBase.num.toInt)) := by
  have hRescale : Rational.rescale 1 frameRate.invert timeBase = some duration := by
    unfold frameDuration at h
    split at h
    case isTrue => cases h
    case isFalse =>
      split at h
      case h_1 other hOther =>
        split at h <;> cases h
        exact hOther
      case h_2 => cases h
  rw [Rational.rescale_eq_some hRescale, Rational.rescaleNum, Rational.rescaleDen]
  have hOne : (1 : Int64).toInt = 1 := rfl
  rw [hOne, one_mul]
  push_cast
  rfl

/-- The time between two pictures is that of the frame rate, rounded to a whole number of ticks, and
what comes out keeps to it up to half a duration. -/
theorem duration_and_isChain_spaced {info : StreamInfo} {timeBase frameRate : Rational}
    {templates : TemplateTable} {f : Filter}
    (hCreate : (create info timeBase frameRate templates).result = .ok f) :
    1 ≤ f.setup.duration.toInt ∧
    f.setup.duration.toInt
      = roundAway ((frameRate.den.toInt * timeBase.den.toInt : ℚ)
          / (frameRate.num.toInt * timeBase.num.toInt)) ∧
    ∀ packets outputs, (∀ packet ∈ packets, packet.dts ≠ Ticks.unset) →
      (packets.IsChain fun sent packet =>
        Timely f.setup.duration.toInt sent.dts.toInt packet.dts.toInt) →
      f.drainAll packets = .ok outputs →
      outputs.IsChain (Output.Spaced f.setup.duration.toInt) := by
  obtain ⟨hStart, hChecked⟩ := checked_of_create hCreate
  refine ⟨duration_pos_toInt f.setup, duration_eq hChecked.duration, ?_⟩
  intro packets outputs hSet hTimely hOutputs
  have hMeets : packets.IsChain f.setup.Meets := by
    apply hTimely.imp_of_mem_imp
    intro sent packet hSent hPacket hNear
    exact ⟨hSet sent hSent, hSet packet hPacket, hNear⟩
  apply (keeps_spaced f.setup).isChain_of_unset ?_ ?_ ?_ hMeets hOutputs
  · rw [hStart, start]
  · rw [hStart, start]
  · intro packet out after _ hDelivers
    exact hDelivers.onTime

/-- One packet comes half a duration early, and the next one after a gap of a duration and a half. -/
def sampleLate : List Packet :=
  [sampleKey 0, samplePicture 1 1800, samplePicture 2 10799]

def sampleOnTime : List Output :=
  (sample.drainAll sampleLate).toOption.get (by decide +kernel)

/-- One picture goes before the third packet, which comes a tick less than half a duration behind
its time. -/
theorem isChain_spaced_sampleOnTime :
    sampleOnTime.map Output.dts = [0, 1800, 5400, 10799] ∧
      sampleOnTime.IsChain (Output.Spaced sample.setup.duration.toInt) :=
  ⟨by decide +kernel, (duration_and_isChain_spaced create_sample).2.2 sampleLate sampleOnTime
    (by decide +kernel) (by decide +kernel) (except_eq_ok_get (by decide +kernel))⟩

end Filter

end Cadence
