import Mathlib
import Cadence.Meter.TickRate

/-!
A time in seconds is a double. Microseconds are rounded to it, divided and rounded again, and neither step
comes near the smallest doubles. So a time that is not zero in microseconds is not zero in seconds
(`Measure.seconds_ne_zero`).
-/

namespace Cadence

open Float.Model Float.Model.UnpackedFloat

section Rounding

variable {mantissa : Nat} {exponent low high : Int}

/-- A finite double whose mantissa uses all its bits, with an exponent in some range. -/
def IsNormal (low high : Int) : UnpackedFloat → Prop
  | .finite _ mantissa exponent _ =>
      2 ^ 52 ≤ mantissa ∧ mantissa < 2 ^ 53 ∧ low ≤ exponent ∧ exponent ≤ high
  | _ => False

/-- Bounds on an exponent may be widened. -/
theorem IsNormal.mono {low' high' : Int} {unpacked : UnpackedFloat} (h : IsNormal low high unpacked)
    (hLow : low' ≤ low) (hHigh : high ≤ high') : IsNormal low' high' unpacked := by
  cases unpacked with
  | finite sign mantissa exponent hPositive =>
      exact ⟨h.1, h.2.1, hLow.trans h.2.2.1, h.2.2.2.trans hHigh⟩
  | infinity sign => exact h
  | notANumber => exact h
  | zero sign => exact h

theorem log2_of_normal (hLow : 2 ^ 52 ≤ mantissa) (hHigh : mantissa < 2 ^ 53) : mantissa.log2 = 52 := by
  have := (Nat.le_log2 (show mantissa ≠ 0 by omega)).mpr hLow
  have := (Nat.log2_lt (show mantissa ≠ 0 by omega)).mpr hHigh
  omega

/-- The bits of a mantissa that there is no room for. -/
def spareBits (mantissa : Nat) : Nat :=
  mantissa.log2 - 52

theorem log2_eq_spareBits (h : 2 ^ 52 ≤ mantissa) : mantissa.log2 = 52 + spareBits mantissa := by
  have := (Nat.le_log2 (show mantissa ≠ 0 by omega)).mpr h
  rw [spareBits]
  omega

theorem mantissa_div_spareBits (h : 2 ^ 52 ≤ mantissa) :
    2 ^ 52 ≤ mantissa / 2 ^ spareBits mantissa ∧ mantissa / 2 ^ spareBits mantissa < 2 ^ 53 := by
  have hLog := log2_eq_spareBits h
  constructor
  · rw [Nat.le_div_iff_mul_le (Nat.two_pow_pos _), ← Nat.pow_add, ← hLog]
    exact Nat.log2_self_le (by omega)
  · rw [Nat.div_lt_iff_lt_mul (Nat.two_pow_pos _), ← Nat.pow_add]
    have hLt : mantissa < 2 ^ (mantissa.log2 + 1) := Nat.lt_log2_self
    rwa [hLog, show 52 + spareBits mantissa + 1 = 53 + spareBits mantissa by omega] at hLt

theorem mantissa_shiftRight (extended : ExtendedMantissa) (count : Nat) :
    (extended >>> count).mantissa = extended.mantissa / 2 ^ count := by
  induction count with
  | zero => exact (Nat.div_one _).symm
  | succ count ih =>
      have hStep : (extended >>> (count + 1)).mantissa = (extended >>> count).mantissa / 2 := rfl
      rw [hStep, ih, Nat.div_div_eq_div_mul, ← Nat.pow_succ]

theorem mantissa_ofMantissaAndAccuracy (mantissa : Nat) (accuracy : Accuracy) :
    (ExtendedMantissa.ofMantissaAndAccuracy mantissa accuracy).mantissa = mantissa := by
  unfold ExtendedMantissa.ofMantissaAndAccuracy
  split <;> rfl

/-- Only the spare bits are shifted out. -/
theorem shiftToTargetExponent_eq (h : 2 ^ 52 ≤ mantissa) (hLow : -1074 ≤ exponent) (accuracy : Accuracy) :
    let shifted := shiftToTargetExponent .binary64 mantissa exponent accuracy
    shifted.1.mantissa = mantissa / 2 ^ spareBits mantissa ∧
      shifted.2 = exponent + spareBits mantissa := by
  have hTarget : Format.binary64.targetExponent (totalExponent mantissa exponent)
      = exponent + spareBits mantissa := by
    have hLog := log2_eq_spareBits h
    show max ((mantissa.log2 : Int) + 1 + exponent - 53) (-1074) = _
    omega
  have hShift : (exponent + spareBits mantissa - exponent).toNat = spareBits mantissa := by omega
  dsimp only
  rw [shiftToTargetExponent, hTarget, shiftToExponent, hShift]
  exact ⟨by rw [mantissa_shiftRight, mantissa_ofMantissaAndAccuracy], rfl⟩

/-- Rounding moves a mantissa up by one at most. -/
theorem roundedMantissa_bounds (extended : ExtendedMantissa) :
    extended.mantissa ≤ extended.roundedMantissa ∧ extended.roundedMantissa ≤ extended.mantissa + 1 := by
  unfold ExtendedMantissa.roundedMantissa Accuracy.roundToNearestEven
  split <;> omega

/-- A mantissa with enough bits stays normal when it is rounded. Its exponent grows by the spare bits, and
once more if all of its bits are carried over. -/
theorem roundWithAccuracy_isNormal (h : 2 ^ 52 ≤ mantissa) (hLow : -1074 ≤ exponent) (sign : Sign)
    (accuracy : Accuracy) :
    IsNormal (exponent + spareBits mantissa) (exponent + spareBits mantissa + 1)
      (roundWithAccuracy .binary64 sign mantissa exponent accuracy) := by
  obtain ⟨hMantissa, hExponent⟩ := shiftToTargetExponent_eq h hLow accuracy
  have hBounds := mantissa_div_spareBits h
  rw [← hMantissa] at hBounds
  rw [roundWithAccuracy]
  generalize shiftToTargetExponent .binary64 mantissa exponent accuracy = shifted at *
  obtain ⟨extended, first⟩ := shifted
  dsimp only at *
  have hRounded := roundedMantissa_bounds extended
  generalize extended.roundedMantissa = rounded at *
  have hEnough : 2 ^ 52 ≤ rounded := by omega
  have hSpare : spareBits rounded ≤ 1 := by
    have hLog : rounded.log2 < 54 := (Nat.log2_lt (by omega)).mpr (by omega)
    rw [spareBits]
    omega
  obtain ⟨hMantissa', hExponent'⟩ := shiftToTargetExponent_eq hEnough (show -1074 ≤ first by omega) .exact
  have hBounds' := mantissa_div_spareBits hEnough
  rw [← hMantissa'] at hBounds'
  rw [dif_neg (by omega)]
  exact ⟨hBounds'.1, hBounds'.2, by omega, by omega⟩

end Rounding

section Packing

variable {low high : Int} {unpacked : UnpackedFloat}

/-- The first bit of a mantissa that uses all its bits need not be stored. -/
theorem toNat_implicit_append {mantissa : Nat} (hLow : 2 ^ 52 ≤ mantissa) (hHigh : mantissa < 2 ^ 53) :
    (1#1 ++ BitVec.ofNat 52 mantissa).toNat = mantissa := by
  rw [BitVec.toNat_append, ← Nat.shiftLeft_add_eq_or_of_lt (BitVec.isLt _), Nat.shiftLeft_eq,
    BitVec.toNat_ofNat, BitVec.toNat_ofNat]
  omega

theorem sign_unpackSign_packComponents {format : Format} (sign : Sign) (exponent : BitVec format.exponentBits)
    (mantissa : BitVec format.mantissaBitsWithoutImplicit) :
    Sign.ofBitVec (unpackSign (packComponents format sign exponent mantissa)) = sign := by
  have hSign : unpackSign (packComponents format sign exponent mantissa) = sign.toBitVec := by
    apply BitVec.eq_of_getLsbD_eq
    intro place hPlace
    obtain rfl : place = 0 := by omega
    simp [unpackSign, packComponents, BitVec.getLsbD_append, BitVec.getElem_append]
  rw [hSign]
  cases sign <;> rfl

/-- A normal double is not changed when it is stored. -/
theorem unpack_pack_of_isNormal (h : IsNormal low high unpacked) (hLow : -1074 ≤ low) (hHigh : high ≤ 971) :
    (Float.Model.pack unpacked).unpack = unpacked := by
  cases unpacked with
  | finite sign mantissa exponent hPositive =>
      obtain ⟨hFrom, hTill, hFirst, hLast⟩ := h
      have hLog : mantissa.log2 + 1 = 53 := by rw [log2_of_normal hFrom hTill]
      obtain ⟨biased, hBiased⟩ : ∃ biased : Nat, exponent + 1023 + 52 = biased :=
        Int.eq_ofNat_of_zero_le (by omega)
      have hPacked : UnpackedFloat.pack .binary64 (.finite sign mantissa exponent hPositive)
          = packComponents .binary64 sign (BitVec.ofNat 11 biased) (BitVec.ofNat 52 mantissa) := by
        show (if 2 ^ 11 ≤ (exponent + 1023 + 52).toNat + 1 then _ else if mantissa.log2 + 1 = 53 then
          packComponents .binary64 sign (BitVec.ofNat 11 (exponent + 1023 + 52).toNat) _ else _) = _
        rw [hBiased, Int.toNat_natCast, if_neg (by omega), if_pos hLog]
      have hExponent : (BitVec.ofNat 11 biased).toNat = biased := by
        rw [BitVec.toNat_ofNat]
        omega
      have hNotLast : BitVec.ofNat 11 biased ≠ -1#11 := by
        intro hEq
        have := congrArg BitVec.toNat hEq
        rw [hExponent] at this
        simp at this
        omega
      have hNotFirst : BitVec.ofNat 11 biased ≠ 0#11 := by
        intro hEq
        have := congrArg BitVec.toNat hEq
        rw [hExponent] at this
        simp at this
        omega
      show UnpackedFloat.unpack .binary64 (UnpackedFloat.pack .binary64 _) = _
      rw [hPacked, UnpackedFloat.unpack]
      simp only [unpackMantissa_packComponents, unpackExponent_packComponents,
        sign_unpackSign_packComponents, if_neg hNotLast, if_neg hNotFirst, hExponent,
        toNat_implicit_append hFrom hTill]
      congr 1
      show (biased : Int) - (1023 + 52) = exponent
      omega
  | infinity sign => exact h.elim
  | notANumber => exact h.elim
  | zero sign => exact h.elim

end Packing

section Quotients

variable {low high : Int}

theorem isNormal_ofUInt64 {count : UInt64} (h : 1 ≤ count.toNat) :
    IsNormal (-52) 12 (UnpackedFloat.ofUInt64 .binary64 count) := by
  have hCount : count.toNat < 2 ^ 64 := count.toNat_lt
  rw [UnpackedFloat.ofUInt64, UnpackedFloat.ofNat, UnpackedFloat.ofInt, UnpackedFloat.normalize]
  generalize count.toNat = count at *
  have hGreater : compare (count : Int) 0 = .gt := compare_gt_iff_gt.mpr (by omega)
  have hLog : count.log2 < 64 := (Nat.log2_lt (by omega)).mpr hCount
  have hTarget : Format.binary64.targetExponent (totalExponent count 0) = count.log2 - 52 := by
    show max ((count.log2 : Int) + 1 + 0 - 53) (-1074) = _
    omega
  rw [hGreater]
  dsimp only
  rw [Int.toNat_natCast, UnpackedFloat.round, hTarget, decreaseExponent]
  dsimp only
  -- A short mantissa is filled up with zero bits, a long one is rounded.
  have hShift : (0 - ((count.log2 : Int) - 52)).toNat = 52 - count.log2 := by omega
  rw [hShift, Nat.shiftLeft_eq]
  have hPositive : 0 < count * 2 ^ (52 - count.log2) := Nat.mul_pos (by omega) (Nat.two_pow_pos _)
  have hFilled : (count * 2 ^ (52 - count.log2)).log2 = count.log2 + (52 - count.log2) := by
    rw [Nat.log2_eq_iff hPositive.ne', Nat.add_right_comm, Nat.pow_add, Nat.pow_add _ (count.log2 + 1)]
    exact ⟨Nat.mul_le_mul_right _ (Nat.log2_self_le (by omega)),
      Nat.mul_lt_mul_of_pos_right Nat.lt_log2_self (Nat.two_pow_pos _)⟩
  have hEnough : 2 ^ 52 ≤ count * 2 ^ (52 - count.log2) :=
    (Nat.le_log2 hPositive.ne').mp (by omega)
  have hNormal := roundWithAccuracy_isNormal hEnough
    (show -1074 ≤ 0 - ((52 - count.log2 : Nat) : Int) by omega) .positive .exact
  have hSpare : (spareBits (count * 2 ^ (52 - count.log2)) : Int) = count.log2 + (52 - count.log2 : Nat) - 52 := by
    rw [spareBits, hFilled]
    omega
  rw [hSpare] at hNormal
  exact hNormal.mono (by omega) (by omega)

/-- A quotient of normal doubles is normal, as long as its exponent is not too low. -/
theorem isNormal_div {low' high' : Int} {dividend divisor : UnpackedFloat} (hDividend : IsNormal low high dividend)
    (hDivisor : IsNormal low' high' divisor) (hLow : -1021 ≤ low - high') :
    IsNormal (low - high' - 53) (high - low' - 51) (UnpackedFloat.div .binary64 dividend divisor) := by
  cases dividend with
  | infinity sign => exact hDividend.elim
  | notANumber => exact hDividend.elim
  | zero sign => exact hDividend.elim
  | finite sign mantissa exponent hPositive =>
      cases divisor with
      | infinity sign => exact hDivisor.elim
      | notANumber => exact hDivisor.elim
      | zero sign => exact hDivisor.elim
      | finite sign' mantissa' exponent' hPositive' =>
          obtain ⟨hFrom, hTill, hFirst, hLast⟩ := hDividend
          obtain ⟨hFrom', hTill', hFirst', hLast'⟩ := hDivisor
          have hLog := log2_of_normal hFrom hTill
          have hLog' := log2_of_normal hFrom' hTill'
          have hTarget : min (exponent - exponent') (Format.binary64.targetExponent
              (totalExponent mantissa exponent - totalExponent mantissa' exponent'))
                = exponent - exponent' - 53 := by
            show min _ (max (((mantissa.log2 : Int) + 1 + exponent) - ((mantissa'.log2 : Int) + 1 + exponent')
              - 53) (-1074)) = _
            omega
          have hShift : (exponent - exponent' - (exponent - exponent' - 53)).toNat = 53 := by omega
          have hQuotient : 2 ^ 52 ≤ mantissa * 2 ^ 53 / mantissa' ∧ mantissa * 2 ^ 53 / mantissa' < 2 ^ 54 := by
            constructor
            · rw [Nat.le_div_iff_mul_le hPositive']
              omega
            · rw [Nat.div_lt_iff_lt_mul hPositive']
              omega
          have hSpare : spareBits (mantissa * 2 ^ 53 / mantissa') ≤ 1 := by
            have := (Nat.log2_lt (show mantissa * 2 ^ 53 / mantissa' ≠ 0 by omega)).mpr hQuotient.2
            rw [spareBits]
            omega
          rw [UnpackedFloat.div, divCore, hTarget, hShift, Nat.shiftLeft_eq]
          exact (roundWithAccuracy_isNormal hQuotient.1 (by omega) _ _).mono (by omega) (by omega)

theorem unpack_million :
    (1000000.0 : Float).toModel.unpack = .finite .positive 8589934592000000 (-33) (by decide) :=
  rfl

/-- A normal double is not zero. -/
theorem beq_zero_of_isNormal {value : Float} (h : IsNormal low high value.toModel.unpack) :
    (value == 0.0) = false := by
  have hZero : (0.0 : Float).toModel.unpack = .zero .positive := rfl
  show (value.toModel.unpack.compare (0.0 : Float).toModel.unpack == some .eq) = false
  rw [hZero]
  generalize value.toModel.unpack = unpacked at h
  cases unpacked with
  | finite sign mantissa exponent hPositive => cases sign <;> rfl
  | infinity sign => exact h.elim
  | notANumber => exact h.elim
  | zero sign => exact h.elim

end Quotients

/-- A time of at least one microsecond is not zero in seconds. -/
theorem TickRate.Measure.seconds_ne_zero {measure : TickRate.Measure} (h : 1 ≤ measure.span.toInt) :
    (measure.seconds == 0.0) = false := by
  have hForward : ¬ measure.span < 0 := by
    rw [Int64.lt_iff_toInt_lt, Int64.toInt_zero]
    omega
  rw [seconds, if_neg hForward]
  have hCount : 1 ≤ (UInt64.ofNat measure.span.toInt.natAbs).toNat := by
    have := measure.span.toInt_lt
    rw [UInt64.toNat_ofNat_of_lt' (by show _ < 2 ^ 64; omega)]
    omega
  have hDividend := isNormal_ofUInt64 hCount
  have hMillion : IsNormal (-33) (-33) (1000000.0 : Float).toModel.unpack := by
    rw [unpack_million]
    exact ⟨by decide, by decide, le_rfl, le_rfl⟩
  have hQuotient := isNormal_div hDividend hMillion (by decide)
  apply @beq_zero_of_isNormal (-72) (-6)
  show IsNormal _ _ (Float.Model.pack (UnpackedFloat.div .binary64 (Float.Model.pack _).unpack
    (1000000.0 : Float).toModel.unpack)).unpack
  rw [unpack_pack_of_isNormal hDividend (by decide) (by decide),
    unpack_pack_of_isNormal hQuotient (by decide) (by decide)]
  exact hQuotient

theorem TickRate.Measure.perSecond_eq {measure : TickRate.Measure} (hCount : 1 ≤ measure.count)
    (hSpan : 1 ≤ measure.span.toInt) : measure.perSecond = Float.ofNat measure.count / measure.seconds := by
  have hSeconds := seconds_ne_zero hSpan
  have hSome : measure.count ≠ 0 := by omega
  rw [perSecond, hSeconds, if_neg (by simpa using hSome)]

end Cadence
