import Cadence.Fault

/-!
The loudness of 16-bit audio: root mean square and peak of each channel, in decibels below full
scale. The peak counts positive samples only.
-/

namespace Cadence

namespace AudioLevel

/-- What has been seen of a channel. -/
structure Meter where
  power : Float := 0.0
  peak : Int16 := 0

/-- A sample as a part of full scale. -/
def amplitude (sample : Int16) : Float :=
  sample.toFloat / 32768.0

def Meter.add (meter : Meter) (sample : Int16) : Meter :=
  let v := amplitude sample
  { power := meter.power + v * v, peak := max meter.peak sample }

/-- The level of silence. -/
def silence : Float32 := -100.0

/-- The level of an amplitude; very small ones count as silence. -/
def decibels (amplitude : Float) : Float32 :=
  if amplitude > 0.00001 then (20.0 * amplitude.log10).toFloat32 else silence

/-- The level of one channel. -/
structure Channel where
  rms : Float32 := silence
  peak : Float32 := silence

/-- The level of a channel after `frames` samples. -/
def Meter.level (meter : Meter) (frames : Nat) : Channel :=
  { rms := decibels (meter.power / Float.ofNat frames).sqrt, peak := decibels (amplitude meter.peak) }

/-- Measures the complete frames of two interleaved channels. -/
def measurePairs : List Int16 → Meter → Meter → Meter × Meter
  | left :: right :: rest, first, second => measurePairs rest (first.add left) (second.add right)
  | _, first, second => (first, second)

end AudioLevel

/-- The levels of up to two channels. A channel that does not exist is silent. -/
structure AudioLevel where
  first : AudioLevel.Channel := {}
  second : AudioLevel.Channel := {}

namespace AudioLevel

/-- Measures interleaved samples. An incomplete frame at the end is ignored. -/
def ofSamples (samples : List Int16) (channels : Nat) : Except Fault AudioLevel :=
  match channels with
  | 0 => .ok {}
  | 1 =>
    if samples.isEmpty then .ok {}
    else .ok { first := (samples.foldl Meter.add {}).level samples.length }
  | 2 =>
    let frames := samples.length / 2
    if frames = 0 then .ok {}
    else
      let (first, second) := measurePairs samples {} {}
      .ok { first := first.level frames, second := second.level frames }
  | _ => .error (.channelCount channels)

end AudioLevel

end Cadence
