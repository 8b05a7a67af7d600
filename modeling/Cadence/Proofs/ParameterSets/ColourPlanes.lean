import Cadence.Proofs.Bits.Steps
import Cadence.Proofs.ParameterSets.Ranges

/-!
Colour planes that are coded separately. The flag for this stands behind the chroma format in a sequence
parameter set. It is read there (`readPlanes_eq_ok`), but what is kept of the set does not tell it.
-/

namespace Cadence

open BitReader

namespace Sps

/-- A sequence parameter set, without escape bytes, whose colour planes are coded separately. The flag for this
follows the chroma format if the format is 4:4:4, and only some profiles have a chroma format. -/
def SeparatesPlanes (rbsp : Bytes) : Prop :=
  ∃ (profile constraints level : UInt8) (rest : Bytes) (id : Fin 32) (back : List Bool),
    rbsp = profile :: constraints :: level :: rest ∧ hasChromaFields profile.toNat ∧
      Bits.ofBytes rest = Bits.ue id ++ (Bits.ue 3 ++ true :: back)

/-- Without chroma fields no planes are separate. -/
theorem not_separatesPlanes {profile : UInt8} (h : ¬ hasChromaFields profile.toNat) (rest : Bytes) :
    ¬ SeparatesPlanes (profile :: rest) := by
  rintro ⟨_, _, _, _, _, _, hRbsp, hProfile, _⟩
  cases hRbsp
  exact h hProfile

/-- The flag as it is read on the way through a sequence parameter set. -/
def readPlanes : Read Bool := do
  let profile ← readBits 8
  skipMany (readBits 8) 1
  let _ ← readBits 8
  let _ ← readUe
  return (← readChroma profile).separatePlanes

/-- The chroma fields are the format and the bit depths behind it. -/
theorem readChroma_eq {profile : Nat} (h : hasChromaFields profile) :
    readChroma profile = readFormat >>= fun format => readDepths format.1 format.2 := by
  rw [readChroma, if_neg (by simp [h])]

/-- Reading the depths keeps what was read about the planes. -/
theorem separatePlanes_of_readDepths (format : Nat) (separatePlanes : Bool) :
    Read.Ensures (·.separatePlanes = separatePlanes) (readDepths format separatePlanes) := by
  unfold readDepths
  refine .bind fun _ => .bind fun _ => .bind fun _ => .bind fun _ => .guard fun _ => ?_
  exact .bind fun _ => .bind fun _ => .onlyIf fun _ => .pure rfl

/-- The flag is set exactly if it stands behind the chroma format 4:4:4. -/
theorem separate_of_readFormat {format : Nat × Bool} {r s : BitReader} (h : readFormat r = .ok format s) :
    format.2 = true ↔ ∃ back, r.rest = Bits.ue 3 ++ true :: back := by
  obtain ⟨idc, t, hIdc, h⟩ := bind_eq_ok.mp h
  obtain ⟨-, h⟩ := guard_eq_ok.mp h
  obtain ⟨separate, u, hPlanes, h⟩ := either_eq_ok.mp h
  cases h
  split at hPlanes
  case isTrue hFull =>
    rw [(readUe_eq_ok hIdc).2.1, hFull, readBit_eq_ok hPlanes]
    simp
  case isFalse hPart =>
    cases hPlanes
    refine iff_of_false Bool.false_ne_true ?_
    rintro ⟨back, hWord⟩
    exact hPart ((Reads.readUe (by decide)).eq_of_ok hWord hIdc).1

/-- The flag is read where the chroma format is 4:4:4, and only there. -/
theorem separatePlanes_of_readChroma {profile : Nat} {chroma : Chroma} {r s : BitReader}
    (h : readChroma profile r = .ok chroma s) :
    chroma.separatePlanes = true ↔
      hasChromaFields profile ∧ ∃ back, r.rest = Bits.ue 3 ++ true :: back := by
  by_cases hProfile : hasChromaFields profile
  · rw [readChroma_eq hProfile] at h
    obtain ⟨format, t, hFormat, hDepths⟩ := bind_eq_ok.mp h
    rw [separatePlanes_of_readDepths _ _ _ _ _ hDepths, separate_of_readFormat hFormat]
    exact (and_iff_right hProfile).symm
  · rw [readChroma, if_pos (by simp [hProfile])] at h
    cases h
    simp [hProfile]

/-- Of a sequence parameter set that can be read, the reader finds the flag, and finds it set exactly if the set
separates planes. -/
theorem readPlanes_eq_ok {rbsp : Bytes} {sps : Sps} (h : ofRbsp rbsp = .ok sps) :
    ∃ separate, readPlanes.value? rbsp = .ok separate ∧ (separate = true ↔ SeparatesPlanes rbsp) := by
  unfold ofRbsp at h
  split at h
  case isTrue => cases h
  case isFalse hLong =>
    obtain ⟨s, h⟩ := Read.value?_eq_ok.mp h
    obtain ⟨profile, constraints, level, rest, rfl⟩ : ∃ profile constraints level rest,
        rbsp = profile :: constraints :: level :: rest := by
      match rbsp with
      | profile :: constraints :: level :: rest => exact ⟨profile, constraints, level, rest, rfl⟩
      | [] | [_] | [_, _] => simp at hLong
    unfold read at h
    obtain ⟨first, r₁, hFirst, h⟩ := bind_eq_ok.mp h
    obtain ⟨_, r₂, hSecond, h⟩ := bind_eq_ok.mp h
    obtain ⟨third, r₃, hThird, h⟩ := bind_eq_ok.mp h
    obtain ⟨id, r₄, hId, h⟩ := bind_eq_ok.mp h
    split at h
    case isTrue => cases h
    case isFalse hRange =>
      obtain ⟨chroma, r₅, hChroma, _⟩ := bind_eq_ok.mp h
      refine ⟨chroma.separatePlanes, Read.value?_eq_ok.mpr ⟨r₅, ?_⟩, ?_⟩
      · exact bind_eq_ok.mpr ⟨first, r₁, hFirst, bind_eq_ok.mpr ⟨(), r₂, hSecond,
          bind_eq_ok.mpr ⟨third, r₃, hThird, bind_eq_ok.mpr ⟨id, r₄, hId,
            bind_eq_ok.mpr ⟨chroma, r₅, hChroma, rfl⟩⟩⟩⟩⟩
      · obtain ⟨rfl, hRest⟩ := (reads_byte profile).eq_of_ok (rest_ofBytes _) hFirst
        obtain ⟨_, _, hSecond, hPure⟩ := bind_eq_ok.mp hSecond
        cases hPure
        obtain ⟨_, hRest⟩ := (reads_byte constraints).eq_of_ok hRest hSecond
        obtain ⟨_, hRest⟩ := (reads_byte level).eq_of_ok hRest hThird
        obtain ⟨_, hId', _⟩ := readUe_eq_ok hId
        rw [separatePlanes_of_readChroma hChroma]
        constructor
        · rintro ⟨hProfile, back, hBack⟩
          exact ⟨profile, constraints, level, rest, ⟨id, by omega⟩, back, rfl, hProfile,
            by rw [← hBack, ← hId']; exact hRest.symm⟩
        · rintro ⟨_, _, _, _, other, back, hSame, hProfile, hBits⟩
          cases hSame
          have hOther : (other : Nat) + 1 < 2 ^ 32 := by omega
          exact ⟨hProfile, back, ((Reads.readUe hOther).eq_of_ok (hRest.trans hBits) hId).2⟩

end Sps

end Cadence
