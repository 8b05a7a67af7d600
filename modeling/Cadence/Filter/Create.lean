import Cadence.Filter.Basic
import Cadence.Rational.Rescale
import Cadence.Template

/-!
Which streams the filter takes on. A skipped picture carries no picture order and is no reference,
so the stream has to be progressive, derive its picture order from decoding order, and use at most
one reference picture.
-/

namespace Cadence

namespace Filter

/-- The picture size of a coded video stream, which has to bring its parameter sets along. -/
def checkInfo (info : StreamInfo) : Except Fault Resolution :=
  match info.codec, info.video with
  | .h264, some size => if info.extradata.isEmpty then .error .missingExtradata else .ok size
  | codec, _ => .error (.notH264 codec)

/-- Length fields of two and four bytes are served, and start codes. -/
def checkFraming : Nal.Framing → Except Fault Unit
  | .annexB => .ok ()
  | .lengthPrefixed size =>
    if size.bytes = 1 ∨ size.bytes = 3 then .error (.lengthSizeNotServed size.bytes) else .ok ()

/-- The stream can be continued by copying its last picture. -/
def checkCoding (pps : Pps) (sps : Sps) : Except Fault Unit := do
  if !sps.frameMbsOnly then throw .interlaced
  if sps.pocType ≠ 2 then throw (.pocTypeNotServed sps.pocType)
  if pps.sliceGroups > 1 ∧ 3 ≤ pps.sliceGroupMap ∧ pps.sliceGroupMap ≤ 5 then
    throw (.sliceGroupMapNotServed pps.sliceGroupMap)
  if sps.maxRefFrames > 1 then throw (.refFramesNotServed sps.maxRefFrames)

/-- The slice data of a skipped picture, if it cannot be written without a template. -/
def sliceData (pps : Pps) (size : Resolution) (templates : TemplateTable) : Except Fault Bytes :=
  if pps.cabac then
    match templates.lookup size with
    | some data => .ok data
    | none => .error (.noTemplate size)
  else .ok []

/-- The time between two pictures in units of the time base, which has to be at least one. -/
def frameDuration (frameRate timeBase : Rational) : Except Fault { d : Ticks // 0 < d } :=
  if !frameRate.isNonZero then .error (.frameRate frameRate)
  else
    match Rational.rescale 1 frameRate.invert timeBase with
    | some d => if h : 0 < d then .ok ⟨d, h⟩ else .error (.frameDuration frameRate timeBase)
    | none => .error (.frameDuration frameRate timeBase)

/-- Checks the parameter sets and puts together what the filter needs. -/
def Setup.ofSets (sets : ParameterSets) (size : Resolution) (timeBase frameRate : Rational)
    (templates : TemplateTable) : Except Fault Setup := do
  checkFraming sets.framing
  let (pps, sps) ← sets.active 0
  checkCoding pps sps
  let sliceData ← sliceData pps size templates
  let ⟨duration, duration_pos⟩ ← frameDuration frameRate timeBase
  return {
    sets, skipFrame := { sps, pps, framing := sets.framing, sliceData }, timeBase, duration,
    duration_pos, label := name }

/-- A filter for a stream. -/
def create (info : StreamInfo) (timeBase frameRate : Rational) (templates : TemplateTable) :
    Outcome Fault Filter := do
  let size ← checkInfo info
  let sets ← ParameterSets.ofExtradata info.extradata
  let setup ← Setup.ofSets sets size timeBase frameRate templates
  Outcome.note [.filterCreated setup.label frameRate timeBase setup.duration sets.framing]
  return start setup

end Filter

end Cadence
