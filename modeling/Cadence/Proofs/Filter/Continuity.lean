import Mathlib.Data.Nat.ModEq
import Cadence.Proofs.Filter.Created
import Cadence.Proofs.Filter.Drain
import Cadence.Proofs.SkipFrame

/-!
Frame numbers go up by one from each packet that comes out to the next, except where decoding can
start anew. What carries this through a run is that the number of the last packet out is the number
of the last packet in, moved forward by the adjustment (`Tracks`).
-/

namespace Cadence

/-- The place and the width of the frame number in the last slice of a packet. -/
def FrameNum.lastField (sets : ParameterSets) (data : Bytes) : Option (Nat × Nat) := do
  let scan ← (Nal.scan sets.framing data).toOption
  let span ← (slices scan).getLast?
  let field ← (ofPayload sets (span.payload data)).toOption
  return (field.place span, field.bitWidth)

namespace Filter

namespace Setup

/-- The width of frame numbers under picture parameter set 0. -/
def numberWidth (setup : Setup) : Nat :=
  match setup.sets.active 0 with
  | .ok (_, sps) => sps.log2MaxFrameNum
  | .error _ => 0

/-- Decoding can start anew at a packet: it is marked so, or all its slices are refresh slices. -/
def isGopStart (setup : Setup) (packet : Packet) : Bool :=
  packet.key ||
    match Nal.scan setup.sets.framing packet.data with
    | .ok scan => !(FrameNum.slices scan).isEmpty && (FrameNum.slices scan).all (·.type.isIdr)
    | .error _ => false

/-- A packet with slices but no refresh slice, and with frame numbers of the usual width. -/
def Continues (setup : Setup) (packet : Packet) : Prop :=
  ∃ scan, Nal.scan setup.sets.framing packet.data = .ok scan ∧ FrameNum.slices scan ≠ [] ∧
    ∀ span ∈ FrameNum.slices scan, ¬ span.type.isIdr ∧
      ∃ field, FrameNum.ofPayload setup.sets (span.payload packet.data) = .ok field ∧
        field.bitWidth = setup.numberWidth

instance (setup : Setup) (packet : Packet) : Decidable (setup.Continues packet) := by
  unfold Continues
  infer_instance

/-- The frame number in what came out for a packet, at the place that was found before it was
renumbered. Where decoding starts anew it counts as zero. -/
def numberIn (setup : Setup) (sent : Packet) (data : Bytes) : Nat :=
  if setup.isGopStart sent then 0
  else
    match FrameNum.lastField setup.sets sent.data with
    | some (place, width) => Bits.field data place width
    | none => 0

def number (setup : Setup) (packet : Packet) : Nat :=
  setup.numberIn packet packet.data

end Setup

namespace Output

def isGopStart (setup : Setup) : Output → Bool
  | .skipped _ => false
  | .passed sent _ => setup.isGopStart sent

def number (setup : Setup) : Output → Nat
  | .skipped packet =>
    Bits.field packet.data setup.skipFrame.numberPlace setup.skipFrame.sps.log2MaxFrameNum
  | .passed sent packet => setup.numberIn sent packet.data

end Output

/-- Where decoding starts anew, the numbering does too. -/
theorem Delivers.of_isGopStart {f after : Filter} {packet out : Packet}
    (h : Delivers f packet (.ok out) after) (hStart : f.setup.isGopStart packet) :
    after.adjustment = 0 ∧ after.lastFrameNum = 0 := by
  have hSlices (hKey : ¬ packet.key) : ∃ scan, Nal.scan f.setup.sets.framing packet.data = .ok scan ∧
      FrameNum.slices scan ≠ [] ∧ ∀ span ∈ FrameNum.slices scan, span.type.isIdr := by
    rw [Setup.isGopStart, Bool.or_eq_true, or_iff_right hKey] at hStart
    split at hStart
    case h_1 scan hScan =>
      rw [Bool.and_eq_true, Bool.not_eq_true', List.isEmpty_eq_false_iff] at hStart
      exact ⟨scan, hScan, hStart.1, List.all_eq_true.mp hStart.2⟩
    case h_2 => cases hStart
  cases h with
  | key => exact ⟨rfl, rfl⟩
  | endOfGop => exact ⟨rfl, rfl⟩
  | renumbered hKey _ hScan hSome hIdr =>
      obtain ⟨_, hOther, _, hAll⟩ := hSlices hKey
      cases hScan.symm.trans hOther
      obtain ⟨span, hSpan⟩ := List.exists_mem_of_ne_nil _ hSome
      exact absurd (hAll span hSpan) (hIdr span hSpan)
  | released hKey hAdjustment hNumber =>
      refine ⟨hAdjustment, ?_⟩
      obtain ⟨scan, hScan, hSome, hAll⟩ := hSlices hKey
      rw [FrameNum.result_ofPacket, hScan] at hNumber
      obtain ⟨_, _, hLast⟩ := FrameNum.ofSlices_eq_ok hNumber
      have hSpan := List.getLast?_eq_some_getLast hSome
      have hZero := hLast _ hSpan
      rw [FrameNum.ofSlice, if_pos (hAll _ (List.mem_of_getLast? hSpan))] at hZero
      cases hZero
      rfl

/-- Elsewhere the adjustment stays, the number of the packet is moved forward by it, and the filter
remembers the number that came out. -/
theorem Delivers.of_continues {f after : Filter} {packet out : Packet}
    (h : Delivers f packet (.ok out) after) (hStart : ¬ f.setup.isGopStart packet)
    (hContinues : f.setup.Continues packet) :
    f.setup.numberWidth ≤ 32 ∧ after.adjustment = f.adjustment ∧
      after.lastFrameNum = f.setup.numberIn packet out.data ∧
      f.setup.numberIn packet out.data
        = (f.setup.number packet + f.adjustment.toNat) % 2 ^ f.setup.numberWidth := by
  obtain ⟨scan, hScan, hSome, hSlices⟩ := hContinues
  have hLaid := FrameNum.slices_laid hScan
  have hSpan := List.getLast?_eq_some_getLast hSome
  generalize (FrameNum.slices scan).getLast hSome = span at hSpan
  have hMem := List.mem_of_getLast? hSpan
  obtain ⟨hIdr, field, hField, hWidth⟩ := hSlices span hMem
  obtain ⟨hNarrow, _, _, hValue⟩ := FrameNum.ofPayload_field (hLaid.within span hMem) hField
  have hNumberIn (data : Bytes) :
      f.setup.numberIn packet data = Bits.field data (field.place span) field.bitWidth := by
    rw [Setup.numberIn, if_neg hStart, FrameNum.lastField, hScan]
    simp [Except.toOption, hSpan, hField]
  rw [Setup.number, hNumberIn, hNumberIn, ← hWidth, ← hValue]
  cases h with
  | key hKey => exact absurd (by simp [Setup.isGopStart, hKey]) hStart
  | endOfGop _ _ hOther hEnd =>
      cases hScan.symm.trans hOther
      rcases hEnd with hNone | ⟨other, hOther, hRefresh⟩
      · exact absurd hNone hSome
      · exact absurd hRefresh (hSlices other hOther).1
  | renumbered _ _ hOther _ _ hDone =>
      cases hScan.symm.trans hOther
      obtain ⟨hFields, _, hLast⟩ := Renumbered.ofSlices_done hLaid hDone
      obtain ⟨found, hFound, hWritten⟩ := hFields span hMem
      cases hField.symm.trans hFound
      cases hLast span field hSpan hField
      rw [← FrameNum.adjusted_eq _ hNarrow]
      exact ⟨hNarrow, rfl, hWritten.symm, hWritten⟩
  | released _ hAdjustment hNumber =>
      rw [FrameNum.result_ofPacket, hScan] at hNumber
      have hLast := (FrameNum.ofSlices_eq_ok hNumber).2.2 span hSpan
      rw [FrameNum.ofSlice, if_neg hIdr, hField] at hLast
      cases hLast
      have hLess : field.value < 2 ^ field.bitWidth := hValue ▸ Bits.field_lt _ _ _
      rw [hAdjustment, ← hValue]
      exact ⟨hNarrow, rfl, rfl, (Nat.mod_eq_of_lt hLess).symm⟩

/-- The filter remembers the number that came out last, and this is the number that was sent last,
moved forward by the adjustment. -/
structure Tracks (setup : Setup) (f : Filter) (sent : Packet) (before : Output) : Prop where
  sameSetup : f.setup = setup
  idle : f.state = .idle
  last : f.lastFrameNum = before.number setup
  moved : before.number setup
    ≡ setup.number sent + f.adjustment.toNat [MOD 2 ^ setup.numberWidth]

/-- The frame number of a packet that is sent is one more than that of the packet before it, where
decoding does not start anew. -/
structure Setup.Precedes (setup : Setup) (sent packet : Packet) : Prop where
  shape : setup.isGopStart packet ∨ setup.Continues packet
  number : setup.isGopStart packet ∨
    setup.number packet = (setup.number sent + 1) % 2 ^ setup.numberWidth

/-- Numbers go up by one, where decoding does not start anew. -/
def Output.Follows (setup : Setup) (before behind : Output) : Prop :=
  ¬ behind.isGopStart setup →
    behind.number setup = (before.number setup + 1) % 2 ^ setup.numberWidth

/-- What is left of a run goes on from the packet that came out last, on the way to `goal`. -/
structure SkipRun.Leads (setup : Setup) (goal : Nat) (run : SkipRun) (before : Output) : Prop where
  next : 0 < run.remaining →
    run.nextFrameNum ≡ before.number setup + 1 [MOD 2 ^ setup.numberWidth]
  way : before.number setup + run.remaining ≡ goal [MOD 2 ^ setup.numberWidth]

/-- A skipped picture has the number of the run, modulo the range of the field. -/
theorem Setup.Checked.number_of_skip {setup : Setup} {timeBase frameRate : Rational}
    (hChecked : setup.Checked timeBase frameRate) {packet skip : Packet} {run : SkipRun}
    (h : setup.skip packet run = .ok skip) :
    (Output.skipped skip).number setup = run.nextFrameNum % 2 ^ setup.numberWidth := by
  obtain ⟨data, hData, rfl⟩ := Setup.skip_eq_ok h
  have hWidth : setup.numberWidth = setup.skipFrame.sps.log2MaxFrameNum := by
    rw [Setup.numberWidth, hChecked.active]
  rw [hWidth]
  exact SkipFrame.field_of_data hData

/-- A skipped picture has the number behind the one that came out before it, and the rest of the run
goes on from it. -/
theorem SkipRun.Leads.skip {setup : Setup} {timeBase frameRate : Rational}
    (hChecked : setup.Checked timeBase frameRate) {packet skip : Packet} {goal : Nat}
    {run : SkipRun} {before : Output} (h : run.Leads setup goal before) (hRun : 0 < run.remaining)
    (hSkip : setup.skip packet run = .ok skip) :
    before.Follows setup (.skipped skip) ∧
      (run.next setup.duration).Leads setup goal (.skipped skip) := by
  have hNumber := hChecked.number_of_skip hSkip
  have hSame : (Output.skipped skip).number setup ≡ run.nextFrameNum
      [MOD 2 ^ setup.numberWidth] := hNumber ▸ Nat.mod_modEq _ _
  refine ⟨fun _ => hNumber.trans (h.next hRun), fun _ => (hSame.add_right 1).symm, ?_⟩
  calc (Output.skipped skip).number setup + (run.remaining - 1)
      ≡ before.number setup + 1 + (run.remaining - 1) [MOD 2 ^ setup.numberWidth] :=
        (hSame.trans (h.next hRun)).add_right _
    _ = before.number setup + run.remaining := by omega
    _ ≡ goal [MOD 2 ^ setup.numberWidth] := h.way

/-- A packet that is planned to follow the last one in leads from the last one out. -/
theorem leads_plan (f : Filter) (packet : Packet) {before : Output}
    (h : f.lastFrameNum = before.number f.setup) :
    (f.plan packet).Leads f.setup (before.number f.setup + (f.plan packet).remaining) before := by
  refine ⟨fun hRun => ?_, .refl _⟩
  unfold plan at hRun ⊢
  split at hRun
  · contradiction
  · split at hRun
    · rw [if_neg ‹_›, if_pos ‹_›, h]
    · contradiction

/-- A packet that comes out, at a fresh start or in the middle of a stream, leaves the filter with
its number. -/
theorem Delivers.tracks {f after : Filter} {packet out : Packet}
    (h : Delivers f packet (.ok out) after)
    (hShape : f.setup.isGopStart packet ∨ f.setup.Continues packet) :
    Tracks f.setup after packet (.passed packet out) := by
  obtain ⟨hIdle, hSetup, _⟩ := h.frame
  by_cases hStart : f.setup.isGopStart packet
  · obtain ⟨hAdjustment, hZero⟩ := h.of_isGopStart hStart
    have hNumber (data : Bytes) : f.setup.numberIn packet data = 0 := by
      rw [Setup.numberIn, if_pos hStart]
    refine ⟨hSetup, hIdle, ?_, ?_⟩
    · rw [hZero, Output.number, hNumber]
    · rw [Output.number, Setup.number, hNumber, hNumber, hAdjustment]
      rfl
  · obtain ⟨_, hAdjustment, hLast, hMoved⟩ :=
      h.of_continues hStart (hShape.resolve_left hStart)
    refine ⟨hSetup, hIdle, hLast, ?_⟩
    rw [Output.number, hMoved, hAdjustment]
    exact Nat.mod_modEq _ _

/-- A packet without a fresh start goes on from all that was planned before it. -/
theorem Tracks.follows {setup : Setup} {f after : Filter} {sent packet out : Packet}
    {before final : Output} (h : Tracks setup f sent before)
    (hPrecedes : setup.Precedes sent packet)
    (hDelivers : Delivers (f.accept packet) packet (.ok out) after)
    (hFinal : final.number setup
      ≡ before.number setup + (f.plan packet).remaining [MOD 2 ^ setup.numberWidth]) :
    final.Follows setup (.passed packet out) := by
  intro hStart
  obtain rfl := h.sameSetup
  obtain ⟨hWidth, _, _, hMoved⟩ := hDelivers.of_continues hStart (hPrecedes.shape.resolve_left hStart)
  change f.setup.numberIn packet out.data
    = (f.setup.number packet + (f.accept packet).adjustment.toNat) % 2 ^ f.setup.numberWidth
    at hMoved
  have hAccept : (f.accept packet).adjustment.toNat
      ≡ f.adjustment.toNat + (f.plan packet).remaining [MOD 2 ^ 32] := by
    rw [adjustment_accept]
    exact Nat.mod_modEq _ _
  have hPlanned := hAccept.of_dvd (Nat.pow_dvd_pow 2 hWidth)
  have hSum : f.setup.number packet + (f.accept packet).adjustment.toNat
      ≡ final.number f.setup + 1 [MOD 2 ^ f.setup.numberWidth] :=
    calc f.setup.number packet + (f.accept packet).adjustment.toNat
        ≡ (f.setup.number sent + 1) + (f.adjustment.toNat + (f.plan packet).remaining)
          [MOD 2 ^ f.setup.numberWidth] :=
          (hPrecedes.number.resolve_left hStart ▸ Nat.mod_modEq _ _).add hPlanned
      _ = (f.setup.number sent + f.adjustment.toNat) + ((f.plan packet).remaining + 1) := by omega
      _ ≡ before.number f.setup + ((f.plan packet).remaining + 1)
          [MOD 2 ^ f.setup.numberWidth] := h.moved.symm.add_right _
      _ = before.number f.setup + (f.plan packet).remaining + 1 := by omega
      _ ≡ final.number f.setup + 1 [MOD 2 ^ f.setup.numberWidth] := hFinal.symm.add_right 1
  exact hMoved.trans hSum

/-- What comes out for one packet goes on from what came out before it. -/
theorem Tracks.step {setup : Setup} {timeBase frameRate : Rational}
    (hChecked : setup.Checked timeBase frameRate) {f after : Filter} {sent packet out : Packet}
    {before : Output} {skips : List Packet} {last : SkipRun} (h : Tracks setup f sent before)
    (hPrecedes : setup.Precedes sent packet)
    (hSkips : Skips f.setup packet (f.plan packet) skips last) (hLast : last.remaining = 0)
    (hDelivers : Delivers (f.accept packet) packet (.ok out) after) :
    (before :: (skips.map .skipped ++ [.passed packet out])).IsChain (Output.Follows setup) ∧
      Tracks setup after packet (.passed packet out) := by
  obtain rfl := h.sameSetup
  refine ⟨hSkips.isChain ?_ (leads_plan f packet h.last) ?_, hDelivers.tracks hPrecedes.shape⟩
  · intro rest final skip hLeads hRest hSkip
    exact hLeads.skip hChecked hRest hSkip
  · intro final hLeads
    apply h.follows hPrecedes hDelivers
    simpa [hLast] using hLeads.way

/-- Consecutive frame numbers are kept up by draining one packet after another. -/
theorem keeps_follows {setup : Setup} {timeBase frameRate : Rational}
    (hChecked : setup.Checked timeBase frameRate) :
    Keeps (Output.Follows setup) setup.Precedes (Tracks setup) where
  idle := by
    intro f sent before hTracks
    exact hTracks.idle
  step := by
    intro f sent before packet skips last out after hTracks hPrecedes hSkips hLast hDelivers
    exact hTracks.step hChecked hPrecedes hSkips hLast hDelivers

/-- In all that comes out, however many pictures were missing, frame numbers go up by one from each
packet to the next, except where decoding starts anew. -/
theorem frameNum_isChain {info : StreamInfo} {timeBase frameRate : Rational}
    {templates : TemplateTable} {f : Filter} {packets : List Packet} {outputs : List Output}
    (hCreate : (create info timeBase frameRate templates).result = .ok f)
    (hShape : ∀ packet ∈ packets, f.setup.isGopStart packet ∨ f.setup.Continues packet)
    (hNumbers : packets.IsChain fun sent packet => f.setup.isGopStart packet ∨
      f.setup.number packet = (f.setup.number sent + 1) % 2 ^ f.setup.numberWidth)
    (hOutputs : f.drainAll packets = .ok outputs) :
    outputs.IsChain fun before behind => ¬ behind.isGopStart f.setup →
      behind.number f.setup = (before.number f.setup + 1) % 2 ^ f.setup.numberWidth := by
  obtain ⟨hStart, hChecked⟩ := checked_of_create hCreate
  have hPrecedes : packets.IsChain f.setup.Precedes := by
    apply hNumbers.imp_of_mem_tail_imp
    intro sent packet _ hPacket hNumber
    exact ⟨hShape packet (List.mem_of_mem_tail hPacket), hNumber⟩
  apply (keeps_follows hChecked).isChain_of_unset ?_ ?_ ?_ hPrecedes hOutputs
  · rw [hStart, start]
  · rw [hStart, start]
  · intro packet out after hPacket hDelivers
    exact hDelivers.tracks (hShape packet hPacket)

/-- Two pictures are missing, and the rest of the stream moves up by two. -/
def sampleGap : List Packet :=
  [sampleKey 0, samplePicture 1 10800, samplePicture 2 14400]

def sampleFilled : List Output :=
  (sample.drainAll sampleGap).toOption.get (by decide +kernel)

/-- Behind the gap the numbers go on to 4, where 2 was sent. -/
theorem frameNum_isChain_sampleFilled :
    sampleFilled.map (Output.number sample.setup) = [0, 1, 2, 3, 4] ∧
      sampleFilled.IsChain fun before behind => ¬ behind.isGopStart sample.setup →
        behind.number sample.setup
          = (before.number sample.setup + 1) % 2 ^ sample.setup.numberWidth :=
  ⟨by decide +kernel, frameNum_isChain create_sample (by decide +kernel) (by decide +kernel)
    (except_eq_ok_get (by decide +kernel))⟩

end Filter

end Cadence
