import Mathlib.Data.List.Basic
import Cadence.Meter.AudioLevel

/-!
The channels of interleaved audio apart from each other. Two channels that are measured together give the
levels that each gives by itself (`ofSamples_two`): the same samples are added in the same order, and the
powers are divided by the same count.
-/

namespace Cadence

/-- The levels with the channels exchanged. -/
def AudioLevel.swap (level : AudioLevel) : AudioLevel :=
  ⟨level.second, level.first⟩

namespace AudioLevel

/-- The samples of a channel, one of each complete frame of two. -/
def channel (slot : Nat) (samples : List Int16) : List Int16 :=
  (List.range (samples.length / 2)).filterMap fun frame => samples[2 * frame + slot]?

/-- The samples with the two of each complete frame exchanged. -/
def exchanged : List Int16 → List Int16
  | left :: right :: rest => right :: left :: exchanged rest
  | tail => tail

/-- The level of a channel that is measured by itself. -/
def measured (samples : List Int16) : Channel :=
  if samples = [] then {} else (samples.foldl Meter.add {}).level samples.length

variable {slot : Nat} {left right sample : Int16} {samples rest : List Int16}

theorem channel_cons_cons (h : [left, right][slot]? = some sample) (rest : List Int16) :
    channel slot (left :: right :: rest) = sample :: channel slot rest := by
  have hCount : (left :: right :: rest).length / 2 = rest.length / 2 + 1 := by
    rw [List.length_cons, List.length_cons]
    omega
  have hFirst : (left :: right :: rest)[2 * 0 + slot]? = some sample := by
    obtain ⟨hSlot, -⟩ := List.getElem?_eq_some_iff.mp h
    rw [Nat.mul_zero, Nat.zero_add, ← h]
    exact List.getElem?_append_left hSlot
  have hNext (frame : Nat) : (left :: right :: rest)[2 * (frame + 1) + slot]? = rest[2 * frame + slot]? := by
    have hIndex : 2 * (frame + 1) + slot = 2 * frame + slot + 1 + 1 := by omega
    rw [hIndex, List.getElem?_cons_succ, List.getElem?_cons_succ]
  rw [channel, hCount, List.range_succ_eq_map, List.filterMap_cons, hFirst, List.filterMap_map, channel]
  simp only [Function.comp_def, Nat.succ_eq_add_one, hNext]

theorem channel_of_short (h : samples.length < 2) (slot : Nat) : channel slot samples = [] := by
  rw [channel, Nat.div_eq_of_lt h]
  rfl

/-- What is not longer than a frame of two, taken off two by two. -/
theorem length_lt_two (h : ∀ left right rest, samples = left :: right :: rest → False) :
    samples.length < 2 := by
  match samples, h with
  | [], _ => exact Nat.two_pos
  | [_], _ => exact Nat.one_lt_two
  | left :: right :: rest, h => exact (h left right rest rfl).elim

theorem length_channel (h : slot < 2) (samples : List Int16) :
    (channel slot samples).length = samples.length / 2 := by
  induction samples using exchanged.induct with
  | case1 left right rest ih =>
      have hSample : [left, right][slot]? = some ([left, right].get ⟨slot, h⟩) :=
        List.getElem?_eq_getElem h
      rw [channel_cons_cons hSample, List.length_cons, ih, List.length_cons, List.length_cons]
      omega
  | case2 tail hTail =>
      have hShort := length_lt_two hTail
      rw [channel_of_short hShort, List.length_nil, Nat.div_eq_of_lt hShort]

/-- Each meter is given the samples of its channel, in their order. -/
theorem measurePairs_eq (samples : List Int16) (first second : Meter) :
    measurePairs samples first second
      = ((channel 0 samples).foldl Meter.add first, (channel 1 samples).foldl Meter.add second) := by
  fun_induction measurePairs samples first second with
  | case1 left right rest first second ih =>
      rw [ih, channel_cons_cons rfl, channel_cons_cons rfl]
      rfl
  | case2 tail first second hTail =>
      have hShort := length_lt_two hTail
      rw [channel_of_short hShort, channel_of_short hShort]
      rfl

/-- Of mono samples all are measured in the first channel. -/
theorem ofSamples_one (samples : List Int16) : ofSamples samples 1 = .ok { first := measured samples } := by
  cases samples with
  | nil => rfl
  | cons sample samples => rfl

/-- Of stereo samples each channel is measured on its own. -/
theorem ofSamples_two (samples : List Int16) :
    ofSamples samples 2 = .ok ⟨measured (channel 0 samples), measured (channel 1 samples)⟩ := by
  have hFirst := length_channel (show 0 < 2 by decide) samples
  have hSecond := length_channel (show 1 < 2 by decide) samples
  simp only [ofSamples, measured, ← List.length_eq_zero_iff, hFirst, hSecond]
  split
  case isTrue => rfl
  case isFalse => rw [measurePairs_eq]

/-- A sample that begins a frame belongs to no complete one. -/
theorem channel_concat (hSlot : slot < 2) (hWhole : samples.length % 2 = 0) (sample : Int16) :
    channel slot (samples ++ [sample]) = channel slot samples := by
  have hCount : (samples ++ [sample]).length / 2 = samples.length / 2 := by
    rw [List.length_append, List.length_singleton]
    omega
  rw [channel, hCount, channel]
  apply List.filterMap_congr
  intro frame hFrame
  have hLess := List.mem_range.mp hFrame
  exact List.getElem?_append_left (by omega)

/-- With the samples of each pair exchanged the channels are. -/
theorem channel_exchanged (samples : List Int16) :
    channel 0 (exchanged samples) = channel 1 samples ∧ channel 1 (exchanged samples) = channel 0 samples := by
  induction samples using exchanged.induct with
  | case1 left right rest ih =>
      rw [exchanged, channel_cons_cons rfl, channel_cons_cons rfl, channel_cons_cons rfl, channel_cons_cons rfl,
        ih.1, ih.2]
      exact ⟨rfl, rfl⟩
  | case2 tail hTail =>
      have hShort := length_lt_two hTail
      rw [exchanged.eq_2 _ hTail, channel_of_short hShort, channel_of_short hShort]
      exact ⟨rfl, rfl⟩

end AudioLevel

end Cadence
