/-!
What is known of an input stream before its packets arrive.
-/

namespace Cadence

/-- How the pictures of a stream are coded. -/
inductive Codec
  | none
  | h264
  | h265
  deriving DecidableEq, Repr

namespace Codec

/-- A stream is taken to be uncoded until something else is said. -/
instance : Inhabited Codec := ⟨.none⟩

/-- The short name in common use. -/
def name : Codec → String
  | .none => "none"
  | .h264 => "h264"
  | .h265 => "hevc"

instance : ToString Codec := ⟨name⟩

def isVideo (codec : Codec) : Bool :=
  codec != .none

end Codec

/-- A picture size in pixels. -/
structure Resolution where
  width : Nat
  height : Nat
  deriving DecidableEq, Repr

/-- The description of a stream that comes with it, outside its packets. -/
structure StreamInfo where
  codec : Codec
  /-- Parameter sets, as a decoder configuration record or behind start codes. -/
  extradata : List UInt8 := []
  /-- Bits per second, zero if unknown. -/
  bitRate : Nat := 0
  /-- Absent for a stream without pictures. -/
  video : Option Resolution := none

end Cadence
