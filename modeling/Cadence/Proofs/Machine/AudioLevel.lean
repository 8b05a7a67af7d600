import Cadence.Proofs.Machine.Words
import Cadence.Proofs.Meter.Channels

/-!
Measuring audio on a machine. The samples are taken frame by frame, and each one is added in the slot of its
channel; there is a slot for every channel (`audioLevel_eq`). Two channels that are measured together do not
touch each other (`ofSamples_apart`).
-/

namespace Cadence.Machine

open AudioLevel (Meter Channel amplitude channel decibels exchanged measured measurePairs ofSamples)

/-- The samples in groups of one size. At the end, samples that are too few for a group are left out. -/
def frames (size : Nat) (samples : List Int16) : List (List Int16) :=
  (List.range (samples.length / size)).map fun frame => (samples.drop (size * frame)).take size

section Slots

variable {α : Type}

def slotAt (slots : List α) (slot : Nat) : Machine α :=
  match slots[slot]? with
  | some value => .ok value
  | none => stop .range

def setSlot (slots : List α) (slot : Nat) (value : α) : Machine (List α) :=
  if slot < slots.length then .ok (slots.set slot value) else stop .range

end Slots

/-- Adds the samples of a frame, the first of which is that of the given slot. -/
def addFrame (slot : Nat) (meters : List Meter) : (frame : List Int16) → Machine (List Meter)
  | [] => return meters
  | sample :: frame => do
    let meter ← slotAt meters slot
    addFrame (slot + 1) (← setSlot meters slot (meter.add sample)) frame

/-- The levels of the channels in the first `channels` slots. -/
def levels (meters : List Meter) (channels count : Nat) : Machine (List Channel) :=
  (List.range channels).foldlM (fun levels slot => do
    setSlot levels slot ((← slotAt meters slot).level count)) [{}, {}]

def audioLevel (samples : List Int16) (channels : Nat) : Machine AudioLevel := do
  if 2 < channels then ofExcept (.error (.channelCount channels))
  let count := if channels = 0 then 0 else samples.length / channels
  if count = 0 then return {}
  else
    assert (0 < channels)
    let meters ← (frames channels samples).foldlM (addFrame 0) [{}, {}]
    let levels ← levels meters channels count
    return ⟨← slotAt levels 0, ← slotAt levels 1⟩

section Frames

variable {size : Nat} {front rest samples : List Int16}

/-- The samples of one frame at the front make up the first frame. -/
theorem frames_append (hFront : front.length = size) (hSize : 0 < size) (rest : List Int16) :
    frames size (front ++ rest) = front :: frames size rest := by
  have hCount : (front ++ rest).length / size = rest.length / size + 1 := by
    rw [List.length_append, hFront, Nat.add_div_left _ hSize]
  have hNext (frame : Nat) : (front ++ rest).drop (size * (frame + 1)) = rest.drop (size * frame) := by
    rw [Nat.mul_succ, Nat.add_comm, ← List.drop_drop, ← hFront, List.drop_left]
  rw [frames, hCount, List.range_succ_eq_map, List.map_cons, List.map_map, Nat.mul_zero, List.drop_zero, ← hFront,
    List.take_left, hFront, frames]
  simp only [Function.comp_def, Nat.succ_eq_add_one, hNext]

theorem frames_of_short (h : samples.length < size) : frames size samples = [] := by
  rw [frames, Nat.div_eq_of_lt h]
  rfl

/-- A mono frame adds its only sample to the first meter, and nothing to the second one. -/
theorem addFrames_one (samples : List Int16) (meter other : Meter) :
    (frames 1 samples).foldlM (addFrame 0) [meter, other] = .ok [samples.foldl Meter.add meter, other] := by
  induction samples generalizing meter with
  | nil => rfl
  | cons sample samples ih =>
      have hFrames : frames 1 (sample :: samples) = [sample] :: frames 1 samples :=
        frames_append (show [sample].length = 1 from rfl) Nat.one_pos samples
      rw [hFrames, List.foldlM_cons]
      exact ih (meter.add sample)

/-- Stereo frames one after another measure the samples in pairs. -/
theorem addFrames_two (samples : List Int16) (first second : Meter) :
    (frames 2 samples).foldlM (addFrame 0) [first, second]
      = .ok [(measurePairs samples first second).1, (measurePairs samples first second).2] := by
  fun_induction measurePairs samples first second with
  | case1 left right rest first second ih =>
      have hFrames : frames 2 (left :: right :: rest) = [left, right] :: frames 2 rest :=
        frames_append (show [left, right].length = 2 from rfl) Nat.two_pos rest
      rw [hFrames, List.foldlM_cons]
      exact ih
  | case2 tail first second hTail =>
      rw [frames_of_short (AudioLevel.length_lt_two hTail)]
      rfl

end Frames

/-- Every sample finds its slot. -/
theorem audioLevel_eq (samples : List Int16) (channels : Nat) :
    audioLevel samples channels = ofExcept (ofSamples samples channels) := by
  match channels with
  | 0 => rfl
  | 1 =>
      cases samples with
      | nil => rfl
      | cons sample samples =>
          rw [audioLevel, if_neg (by decide)]
          dsimp only
          rw [if_neg Nat.one_ne_zero, Nat.div_one, List.length_cons, if_neg (Nat.succ_ne_zero _), addFrames_one]
          rfl
  | 2 =>
      rw [audioLevel, ofSamples, if_neg (by decide)]
      dsimp only
      rw [if_neg (Nat.succ_ne_zero 1), addFrames_two]
      split <;> rfl
  | channels + 3 =>
      rw [audioLevel, if_pos (by omega)]
      rfl

/-- Two channels that are measured together have the levels that each has by itself. A sample that makes no
frame changes nothing, and if the channels change places, so do their levels. -/
theorem ofSamples_apart (samples : List Int16) :
    (∀ audio channels, audioLevel audio channels = ofExcept (ofSamples audio channels)) ∧
      (∃ together left right, ofSamples samples 2 = .ok together ∧
        ofSamples (channel 0 samples) 1 = .ok left ∧ ofSamples (channel 1 samples) 1 = .ok right ∧
        together.first = left.first ∧ together.second = right.first) ∧
      (samples.length % 2 = 0 → ∀ sample, ofSamples (samples ++ [sample]) 2 = ofSamples samples 2) ∧
      ofSamples (exchanged samples) 2 = (ofSamples samples 2).map AudioLevel.swap := by
  refine ⟨audioLevel_eq, ?_, fun hWhole sample => ?_, ?_⟩
  · exact ⟨_, _, _, AudioLevel.ofSamples_two _, AudioLevel.ofSamples_one _, AudioLevel.ofSamples_one _, rfl, rfl⟩
  · rw [AudioLevel.ofSamples_two, AudioLevel.ofSamples_two, AudioLevel.channel_concat Nat.two_pos hWhole,
      AudioLevel.channel_concat Nat.one_lt_two hWhole]
  · obtain ⟨hFirst, hSecond⟩ := AudioLevel.channel_exchanged samples
    rw [AudioLevel.ofSamples_two, AudioLevel.ofSamples_two, hFirst, hSecond]
    rfl

/-- The odd one of three samples is left out, and a frame that is turned round gives its levels in turn. Only
the positive one of its samples has a peak. -/
theorem ofSamples_apart_samples :
    ([5, -7] : List Int16).length % 2 = 0 ∧ ofSamples [5, -7, 3] 2 = ofSamples [5, -7] 2 ∧
      ofSamples [-7, 5] 2 = (ofSamples [5, -7] 2).map AudioLevel.swap ∧
      audioLevel [5, -7] 2 = .ok {
        first := {
          rms := decibels ((0.0 + amplitude 5 * amplitude 5) / Float.ofNat 1).sqrt
          peak := decibels (amplitude 5) }
        second := {
          rms := decibels ((0.0 + amplitude (-7) * amplitude (-7)) / Float.ofNat 1).sqrt
          peak := decibels (amplitude 0) } } := by
  have hWhole : ([5, -7] : List Int16).length % 2 = 0 := rfl
  obtain ⟨hMachine, -, hTail, hTurned⟩ := ofSamples_apart [5, -7]
  exact ⟨hWhole, hTail hWhole 3, hTurned, hMachine [5, -7] 2⟩

end Cadence.Machine
