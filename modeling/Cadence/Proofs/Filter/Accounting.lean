import Cadence.Proofs.Filter.Created
import Cadence.Proofs.Filter.Drain

/-!
What the adjustment counts when packets are drained, faults included. A fault ends a call for good: the
skipped pictures that were received before it are not returned, but the adjustment keeps them. So it
counts the pictures that the caller was given and those that were lost (`adjustment_drainEach`).
-/

namespace Cadence

namespace Filter

/-- A packet that ends the renumbering when it is given out. -/
def Setup.endsGop (setup : Setup) (packet : Packet) : Bool :=
  packet.key ||
    match Nal.scan setup.sets.framing packet.data with
    | .ok scan => (FrameNum.slices scan).isEmpty || (FrameNum.slices scan).any (·.type.isIdr)
    | .error _ => false

/-- Skipped pictures since renumbering was last ended. -/
structure Account where
  /-- Those that the caller was given. -/
  returned : Nat := 0
  /-- Those that were planned in calls that failed. -/
  lost : Nat := 0
  deriving DecidableEq

/-- The account after one more packet. All but the last of the packets returned are skipped pictures. -/
def Account.book (account : Account) (f : Filter) (packet : Packet) : Account :=
  match (f.drain packet).result with
  | .ok packets =>
    if f.setup.endsGop packet then {}
    else { account with returned := account.returned + (packets.length - 1) }
  | .error _ => { account with lost := account.lost + (f.send packet).filter.pending.remaining }

/-- Packets drained one after another, with or without a fault. -/
def drainEach (f : Filter) (account : Account) : List Packet → Filter × Account
  | [] => (f, account)
  | packet :: packets => (f.drain packet).filter.drainEach (account.book f packet) packets

/-- The adjustment is what has been booked, modulo the range of 32-bit numbers. -/
structure Balanced (f : Filter) (account : Account) : Prop where
  idle : f.state = .idle
  sum : f.adjustment.toNat = (account.returned + account.lost) % 2 ^ 32

/-- After a packet that comes out, the adjustment is gone or as it was. -/
theorem Delivers.adjustment {f after : Filter} {packet out : Packet}
    (h : Delivers f packet (.ok out) after) :
    after.adjustment = if f.setup.endsGop packet then 0 else f.adjustment := by
  cases h with
  | key hKey => simp [Setup.endsGop, hKey]
  | endOfGop _ _ hScan hEnd =>
      have hEnds : f.setup.endsGop packet = true := by
        rw [Setup.endsGop, hScan, Bool.or_eq_true, Bool.or_eq_true, List.isEmpty_iff,
          List.any_eq_true]
        exact .inr hEnd
      rw [if_pos hEnds]
  | renumbered hKey _ hScan hSlices hIdr =>
      have hGoesOn : ¬ f.setup.endsGop packet = true := by
        rw [Setup.endsGop, hScan, Bool.or_eq_true, Bool.or_eq_true, List.isEmpty_iff,
          List.any_eq_true]
        rintro (hMarked | hNone | ⟨span, hSpan, hRefresh⟩)
        · exact hKey hMarked
        · exact hSlices hNone
        · exact hIdr span hSpan hRefresh
      rw [if_neg hGoesOn]
  | released _ hAdjustment =>
      split
      · exact hAdjustment
      · rfl

/-- One more packet keeps the account: the pictures planned for it are returned with it, or they are
lost with it. -/
theorem Balanced.book {f : Filter} {account : Account} (h : Balanced f account) (packet : Packet) :
    Balanced (f.drain packet).filter (account.book f packet) := by
  have hDrains := drains h.idle packet
  have hAccept := adjustment_accept f packet
  have hPending : (f.send packet).filter.pending = f.plan packet := by
    rw [(send_of_idle h.idle packet).2]
    rfl
  rw [h.sum, Nat.mod_add_mod] at hAccept
  unfold Account.book
  rw [hPending]
  generalize (f.drain packet).result = result, (f.drain packet).filter = after at hDrains ⊢
  cases hDrains with
  | failed fault =>
      refine ⟨rfl, ?_⟩
      show (f.accept packet).adjustment.toNat = _
      rw [hAccept, Nat.add_assoc]
  | @done skips last out _ hSkips hLast hDelivers =>
      have hLength := hSkips.length_add_remaining
      have hAfter : after.adjustment
          = if f.setup.endsGop packet then 0 else (f.accept packet).adjustment :=
        hDelivers.adjustment
      refine ⟨hDelivers.frame.1, ?_⟩
      dsimp only
      split
      case isTrue hEnds =>
        rw [if_pos hEnds] at hAfter
        rw [hAfter]
        rfl
      case isFalse hGoesOn =>
        rw [if_neg hGoesOn] at hAfter
        rw [hAfter, hAccept, List.length_append, List.length_singleton]
        show _ = (account.returned + (skips.length + 1 - 1) + account.lost) % 2 ^ 32
        congr 1
        omega

/-- Packets drained one after another keep the account, whichever of them fail. -/
theorem Balanced.drainEach {f : Filter} {account : Account} (h : Balanced f account)
    (packets : List Packet) :
    Balanced (f.drainEach account packets).1 (f.drainEach account packets).2 := by
  induction packets generalizing f account with
  | nil => exact h
  | cons packet packets ih => exact ih (h.book packet)

/-- The adjustment is the number of skipped pictures since renumbering was last ended, those included
that were lost with a fault. So it is the number of those that the caller was given exactly if the
number lost is a multiple of the range of the adjustment. -/
theorem adjustment_drainEach {info : StreamInfo} {timeBase frameRate : Rational}
    {templates : TemplateTable} {f : Filter}
    (hCreate : (create info timeBase frameRate templates).result = .ok f) (packets : List Packet) :
    (f.drainEach {} packets).1.adjustment.toNat
        = ((f.drainEach {} packets).2.returned + (f.drainEach {} packets).2.lost) % 2 ^ 32 ∧
      ((f.drainEach {} packets).1.adjustment.toNat
          = (f.drainEach {} packets).2.returned % 2 ^ 32 ↔
        (f.drainEach {} packets).2.lost % 2 ^ 32 = 0) := by
  have hFirst : Balanced f {} := by
    rw [(checked_of_create hCreate).1]
    exact ⟨rfl, rfl⟩
  have hSum := (hFirst.drainEach packets).sum
  refine ⟨hSum, ?_⟩
  rw [hSum]
  omega

/-- The second picture is cut off before its frame number, and two pictures are missing before it. -/
def sampleBroken : List Packet :=
  [sampleKey 0, { data := [0, 0, 0, 1, 0x61], pts := 10800, dts := 10800 }]

/-- Two pictures go before the second packet, and both of them are returned. -/
theorem adjustment_drainEach_sampleGap :
    (sample.drainEach {} [sampleKey 0, samplePicture 1 10800]).2 = ⟨2, 0⟩ ∧
      (sample.drainEach {} [sampleKey 0, samplePicture 1 10800]).1.adjustment.toNat = 2 := by
  have hReturned : (sample.drainEach {} [sampleKey 0, samplePicture 1 10800]).2 = ⟨2, 0⟩ := by
    decide +kernel
  refine ⟨hReturned, ?_⟩
  rw [(adjustment_drainEach create_sample [sampleKey 0, samplePicture 1 10800]).1, hReturned]
  rfl

/-- Nothing was returned for the picture that is cut off, but the numbers behind it are moved. -/
theorem adjustment_ne_returned_sampleBroken :
    (create sampleInfo ⟨1, 90000⟩ ⟨25, 1⟩ []).result = .ok sample ∧
      (sample.drainEach {} sampleBroken).2.returned = 0 ∧
      (sample.drainEach {} sampleBroken).1.adjustment = 2 ∧
      ¬ (sample.drainEach {} sampleBroken).1.adjustment.toNat
        = (sample.drainEach {} sampleBroken).2.returned % 2 ^ 32 :=
  ⟨create_sample, by decide +kernel, by decide +kernel, by decide +kernel⟩

end Filter

end Cadence
