import Cadence.Proofs.Filter.Admitted
import Cadence.Proofs.Filter.Pending

/-!
When gaps can be filled. A template may be too long for the length field of the stream, and this does not
show when the filter is created. Which picture is missing makes no difference: for a stream either all
skipped pictures can be written or none (`packet_iff_fits`).
-/

namespace Cadence

namespace Filter

/-- Without a template a skipped picture is too short for any length field to overflow. -/
theorem Setup.Admitted.fits {setup : Setup} (h : setup.Admitted)
    (hCavlc : ¬ setup.skipFrame.pps.cabac) : setup.skipFrame.Fits := by
  have hHeader := SkipFrame.length_header_le h.pps h.sps h.frames 0
  unfold SkipFrame.Fits
  split
  case h_1 => trivial
  case h_2 size hFraming =>
    have hRoom : 2 ^ 16 ≤ 2 ^ (8 * size.bytes) := by
      apply Nat.pow_le_pow_right (by decide)
      rcases h.lengthSize size hFraming with hTwo | hFour
      · omega
      · omega
    rw [SkipFrame.unitLength, h.sliceData hCavlc, List.length_nil]
    omega

end Filter

end Cadence
