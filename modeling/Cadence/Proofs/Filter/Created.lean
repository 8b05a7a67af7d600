import Cadence.Filter.Create
import Cadence.Proofs.Outcome

/-!
Filters as they are created. A created filter has seen no packet, and its skipped pictures follow the
parameter sets that picture parameter set 0 refers to.
-/

namespace Cadence

namespace Filter

/-- What the parts of a set-up have to do with each other, and with the rates it was asked for. -/
structure Setup.Checked (setup : Setup) (timeBase frameRate : Rational) : Prop where
  sameBase : setup.timeBase = timeBase
  sameFraming : setup.skipFrame.framing = setup.sets.framing
  active : setup.sets.active 0 = .ok (setup.skipFrame.pps, setup.skipFrame.sps)
  duration : frameDuration frameRate timeBase = .ok ⟨setup.duration, setup.duration_pos⟩

/-- A set-up is put together from the parameter sets, once their framing and coding have been
checked. -/
theorem Setup.of_ofSets {sets : ParameterSets} {size : Resolution} {timeBase frameRate : Rational}
    {templates : TemplateTable} {setup : Setup}
    (h : Setup.ofSets sets size timeBase frameRate templates = .ok setup) :
    setup.sets = sets ∧ checkFraming sets.framing = .ok () ∧
      checkCoding setup.skipFrame.pps setup.skipFrame.sps = .ok () ∧
      Filter.sliceData setup.skipFrame.pps size templates = .ok setup.skipFrame.sliceData ∧
      setup.Checked timeBase frameRate := by
  obtain ⟨_, hFraming, h⟩ := except_bind_eq_ok.mp h
  obtain ⟨⟨pps, sps⟩, hActive, h⟩ := except_bind_eq_ok.mp h
  obtain ⟨_, hCoding, h⟩ := except_bind_eq_ok.mp h
  obtain ⟨sliceData, hData, h⟩ := except_bind_eq_ok.mp h
  obtain ⟨⟨duration, hPos⟩, hDuration, h⟩ := except_bind_eq_ok.mp h
  cases h
  exact ⟨rfl, hFraming, hCoding, hData, rfl, rfl, hActive, hDuration⟩

/-- A filter that was created got through all checks, and is in its first state. -/
theorem exists_ofSets_of_create {info : StreamInfo} {timeBase frameRate : Rational}
    {templates : TemplateTable} {f : Filter}
    (h : (create info timeBase frameRate templates).result = .ok f) :
    f = start f.setup ∧ ∃ size sets, checkInfo info = .ok size ∧
      (ParameterSets.ofExtradata info.extradata).result = .ok sets ∧
      Setup.ofSets sets size timeBase frameRate templates = .ok f.setup := by
  unfold create at h
  simp only [Outcome.result_bind] at h
  obtain ⟨size, hInfo, h⟩ := except_bind_eq_ok.mp h
  obtain ⟨sets, hSets, h⟩ := except_bind_eq_ok.mp h
  obtain ⟨setup, hSetup, h⟩ := except_bind_eq_ok.mp h
  obtain ⟨_, _, h⟩ := except_bind_eq_ok.mp h
  cases h
  exact ⟨rfl, size, sets, hInfo, hSets, hSetup⟩

/-- A filter is created in its first state, with a set-up that was checked. -/
theorem checked_of_create {info : StreamInfo} {timeBase frameRate : Rational}
    {templates : TemplateTable} {f : Filter}
    (h : (create info timeBase frameRate templates).result = .ok f) :
    f = start f.setup ∧ f.setup.Checked timeBase frameRate := by
  obtain ⟨hStart, _, _, _, _, hSetup⟩ := exists_ofSets_of_create h
  exact ⟨hStart, (Setup.of_ofSets hSetup).2.2.2.2⟩

/-- A small picture behind start codes, with its parameter sets. -/
def sampleInfo : StreamInfo where
  codec := .h264
  extradata := [0, 0, 0, 1, 0x67, 0x42, 0xC0, 0x1E, 0xDA, 0x25, 0x90,
    0, 0, 0, 1, 0x68, 0xCE, 0x3C, 0x80]
  video := some ⟨32, 32⟩

/-- A filter for 25 pictures in a second, counted in 90000ths. -/
def sample : Filter :=
  (create sampleInfo ⟨1, 90000⟩ ⟨25, 1⟩ []).result.toOption.get (by decide +kernel)

/-- The sample filter is what creating it gives. -/
theorem create_sample : (create sampleInfo ⟨1, 90000⟩ ⟨25, 1⟩ []).result = .ok sample :=
  except_eq_ok_get _

/-- A refresh picture, marked as a key packet. -/
def sampleKey (dts : Ticks) : Packet :=
  { data := [0, 0, 0, 1, 0x65, 0x9A, 0x00, 0x11], pts := dts, dts, key := true }

/-- A picture with a frame number below 8. -/
def samplePicture (number : UInt8) (dts : Ticks) : Packet :=
  { data := [0, 0, 0, 1, 0x61, 0x9A, number <<< 5, 0x11], pts := dts, dts }

end Filter

end Cadence
