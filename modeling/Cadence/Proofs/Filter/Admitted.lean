import Cadence.Proofs.Filter.Created
import Cadence.Proofs.ParameterSets.Ranges

/-!
What is known of a stream once a filter has been created for it: its parameter sets keep to their
ranges, pictures are coded as frames, and only arithmetic coding brings a template along.
-/

namespace Cadence

namespace Filter

structure Setup.Admitted (setup : Setup) : Prop where
  pps : setup.skipFrame.pps.InRange
  sps : setup.skipFrame.sps.InRange
  frames : setup.skipFrame.sps.frameMbsOnly
  lengthSize : ∀ size, setup.skipFrame.framing = .lengthPrefixed size →
    size.bytes = 2 ∨ size.bytes = 4
  sliceData : ¬ setup.skipFrame.pps.cabac → setup.skipFrame.sliceData = []

/-- Only length fields of two or four bytes get through. -/
theorem lengthSize_of_checkFraming {size : Nal.LengthSize}
    (h : checkFraming (.lengthPrefixed size) = .ok ()) : size.bytes = 2 ∨ size.bytes = 4 := by
  unfold checkFraming at h
  split at h
  case h_1 hFraming => cases hFraming
  case h_2 hFraming =>
    cases hFraming
    split at h
    case isTrue => cases h
    case isFalse =>
      have := size.pos
      have := size.le_four
      omega

/-- Streams that may be interlaced do not get through. -/
theorem frameMbsOnly_of_checkCoding {pps : Pps} {sps : Sps} (h : checkCoding pps sps = .ok ()) :
    sps.frameMbsOnly := by
  by_contra hFields
  have hFault : checkCoding pps sps = .error .interlaced := by
    unfold checkCoding
    rw [if_pos (by simpa using hFields)]
    rfl
  cases h.symm.trans hFault

/-- Without arithmetic coding a skipped picture takes no slice data from a template. -/
theorem sliceData_of_cavlc {pps : Pps} {size : Resolution} {templates : TemplateTable} {data : Bytes}
    (hPps : ¬ pps.cabac) (h : sliceData pps size templates = .ok data) : data = [] := by
  rw [sliceData, if_neg hPps] at h
  cases h
  rfl

/-- The set-up of a filter that was created is admitted: its parameter sets are in range, and its
pictures are coded as whole frames. -/
theorem admitted_of_create {info : StreamInfo} {timeBase frameRate : Rational}
    {templates : TemplateTable} {f : Filter}
    (h : (create info timeBase frameRate templates).result = .ok f) : f.setup.Admitted := by
  obtain ⟨_, _, sets, _, hSets, hSetup⟩ := exists_ofSets_of_create h
  obtain ⟨rfl, hFraming, hCoding, hData, hChecked⟩ := Setup.of_ofSets hSetup
  obtain ⟨hPps, hSps⟩ := (ParameterSets.inRange_of_ofExtradata hSets).active hChecked.active
  refine ⟨hPps, hSps, frameMbsOnly_of_checkCoding hCoding, fun size hSize => ?_, fun hCavlc => ?_⟩
  · rw [hChecked.sameFraming] at hSize
    exact lengthSize_of_checkFraming (hSize ▸ hFraming)
  · exact sliceData_of_cavlc hCavlc hData

end Filter

end Cadence
