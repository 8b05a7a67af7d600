import Mathlib.Order.Bounds.Defs
import Cadence.Proofs.Machine.StartCodes
import Cadence.Proofs.Nal.CodePlaces

/-!
What a search for start codes on a machine finds, and what it passes over. It finds the first place from its
start on at which the bytes 00 00 01 stand, and it passes over those words in front of this place that hold no
zero byte (`findThreeBytes_isLeast`).
-/

namespace Cadence.Machine

open Nal

/-- Three bytes of the data are those of a start code exactly if one is there. -/
theorem extract_eq_iff (data : Bytes) (place : Nat) :
    data.extract place (place + 3) = [0, 0, 1] ↔ StartCode.At data place := by
  rw [StartCode.At, StartCode.startsHere_iff_short, List.prefix_iff_eq_take, List.extract_eq_take_drop,
    Nat.add_sub_cancel_left, eq_comm]
  rfl

/-- The next start code is the first one from a place on. -/
theorem nextStartCode_cases (data : Bytes) (place : Nat) :
    IsLeast {code | place ≤ code ∧ StartCode.At data code} (nextStartCode data place) ∨
      nextStartCode data place = data.length ∧ ∀ code, place ≤ code → ¬ StartCode.At data code := by
  rw [nextStartCode_eq]
  cases hCode : StartCode.find? (data.drop place) with
  | none =>
      refine .inr ⟨rfl, fun code hFrom hAt => ?_⟩
      obtain ⟨index, rfl⟩ := Nat.exists_eq_add_of_le hFrom
      exact (StartCode.find?_eq_none_iff_not_at _).mp hCode index ((StartCode.at_drop _ _ _).mpr hAt)
  | some code =>
      obtain ⟨hAt, hFirst⟩ := (StartCode.find?_eq_some_iff _ _).mp hCode
      refine .inl ⟨⟨Nat.le_add_right _ _, (StartCode.at_drop _ _ _).mp hAt⟩, ?_⟩
      rintro other ⟨hFrom, hOther⟩
      obtain ⟨index, rfl⟩ := Nat.exists_eq_add_of_le hFrom
      by_contra hLess
      have hIndex : index < code := Nat.lt_of_add_lt_add_left (Nat.lt_of_not_le hLess)
      exact hFirst index hIndex ((StartCode.at_drop _ _ _).mpr hOther)

/-- The search finds the first place from its start on at which 00 00 01 stands, or the end of the data. It
takes no byte from beyond the data, and passes over just those words in front of what it finds that hold no
zero byte. -/
theorem findThreeBytes_isLeast {data : Bytes} {start : Nat} (hSize : data.length < 2 ^ 63)
    (hStart : start ≤ data.length) :
    ∃ found, findThreeBytes data start = .ok found ∧
      found = ((StartCode.find? (data.drop start)).map (start + ·)).getD data.length ∧
      (IsLeast {place | start ≤ place ∧ data.extract place (place + 3) = [0, 0, 1]} found ∨
        found = data.length ∧ ∀ place, start ≤ place → data.extract place (place + 3) ≠ [0, 0, 1]) ∧
      noteThreeBytes data start = .ok (found,
        (List.range' start ((found - start) / 4) 4).filter fun place => 0 ∉ data.extract place (place + 4)) := by
  refine ⟨nextStartCode data start, findThreeBytes_eq hSize hStart, ?_, ?_, noteThreeBytes_eq hSize hStart⟩
  · rw [nextStartCode_eq]
    cases StartCode.find? (data.drop start) <;> rfl
  · simp only [ne_eq, extract_eq_iff]
    exact nextStartCode_cases data start

/-- From the second byte on, a word without a zero byte is followed by one in which a start code begins that
ends behind it. -/
def sampleAcross : Bytes := [0, 9, 8, 7, 6, 5, 0, 4, 0, 0, 1]

/-- The first word is passed over, and the start code that begins at the end of the second one is
found. -/
theorem findThreeBytes_isLeast_sampleAcross :
    sampleAcross.length < 2 ^ 63 ∧ 1 ≤ sampleAcross.length ∧
      findThreeBytes sampleAcross 1 = .ok 8 ∧
      IsLeast {place | 1 ≤ place ∧ sampleAcross.extract place (place + 3) = [0, 0, 1]} 8 ∧
      noteThreeBytes sampleAcross 1 = .ok (8, [1]) := by
  have hSize : sampleAcross.length < 2 ^ 63 := by decide
  have hStart : 1 ≤ sampleAcross.length := by decide
  obtain ⟨found, hFound, -, hFirst, hNoted⟩ := findThreeBytes_isLeast hSize hStart
  have hEight : findThreeBytes sampleAcross 1 = .ok 8 := rfl
  cases hEight.symm.trans hFound
  have hBefore : ¬ 8 = sampleAcross.length := by decide
  exact ⟨hSize, hStart, hEight, hFirst.resolve_right fun hEnd => hBefore hEnd.1, hNoted⟩

end Cadence.Machine
