import Cadence.Proofs.ParameterSets.Stored
import Cadence.Proofs.Table

/-!
Which unit a sequence parameter set comes from. Of the units that are stored beside a stream, in either form, it
is the last one with the id of the set (`lookup_of_ofExtradata`).
-/

namespace Cadence

/-- The payload of a unit and what is read from it, if the unit is the sequence parameter set with this id. -/
def NalUnit.sps? (id : Nat) (unit : NalUnit) : Option (Bytes × Sps) :=
  match unit.type, Sps.ofRbsp unit.rbsp with
  | .sps, .ok sps => if sps.id = id then some (unit.rbsp, sps) else none
  | _, _ => none

namespace ParameterSets

/-- The units that are stored beside a stream, in a record or behind start codes. -/
def storedUnits (data : Bytes) : Except Fault (List NalUnit) :=
  match data with
  | 1 :: _ => do
    let record ← ConfigRecord.ofBytes data
    (record.sps ++ record.pps).mapM NalUnit.ofBytes
  | _ => NalUnit.split .annexB data

/-- The payload of the sequence parameter set that counts for an id, and what is read from it. -/
def storedSps? (data : Bytes) (id : Nat) : Option (Bytes × Sps) :=
  match storedUnits data with
  | .ok units => units.reverse.findSome? (NalUnit.sps? id)
  | .error _ => none

variable {sets added last : ParameterSets}

/-- A unit that is added replaces the sequence parameter set with its id, and no other. -/
theorem lookup_of_addUnit {unit : NalUnit} (h : sets.addUnit unit = .ok added) (id : Nat) :
    added.sps.lookup id = ((unit.sps? id).map Prod.snd).or (sets.sps.lookup id) := by
  unfold addUnit at h
  unfold NalUnit.sps?
  split at h
  case h_1 hType =>
    obtain ⟨sps, hSps, h⟩ := except_bind_eq_ok.mp h
    cases h
    rw [hType, hSps, Table.lookup_put]
    by_cases hId : sps.id = id
    · simp [hId]
    · simp [hId, Ne.symm hId]
  case h_2 hType =>
    obtain ⟨pps, _, h⟩ := except_bind_eq_ok.mp h
    cases h
    rw [hType]
    rfl
  case h_3 hOther _ =>
    cases h
    split
    case h_1 hType _ => exact absurd hType hOther
    case h_2 => rfl

/-- Of the units that are added, the last one with an id counts. -/
theorem lookup_of_foldlM {units : List NalUnit} (h : units.foldlM addUnit sets = .ok last) (id : Nat) :
    last.sps.lookup id
      = ((units.reverse.findSome? (NalUnit.sps? id)).map Prod.snd).or (sets.sps.lookup id) := by
  induction units generalizing sets with
  | nil =>
      cases h
      rfl
  | cons unit units ih =>
      obtain ⟨added, hAdded, h⟩ := except_bind_eq_ok.mp h
      rw [ih h, lookup_of_addUnit hAdded, List.reverse_cons, List.findSome?_append, Option.map_or,
        Option.or_assoc]
      simp

/-- Units that are added with their header bytes are read and added. -/
theorem exists_units_of_foldlM {list : List Bytes} (h : list.foldlM addBytes sets = .ok last) :
    ∃ units, list.mapM NalUnit.ofBytes = .ok units ∧ units.foldlM addUnit sets = .ok last := by
  induction list generalizing sets with
  | nil => exact ⟨[], rfl, h⟩
  | cons bytes list ih =>
      obtain ⟨added, hAdded, h⟩ := except_bind_eq_ok.mp h
      obtain ⟨unit, hUnit, hAdded⟩ := except_bind_eq_ok.mp hAdded
      obtain ⟨units, hUnits, hLast⟩ := ih h
      refine ⟨unit :: units, ?_, except_bind_eq_ok.mpr ⟨added, hAdded, hLast⟩⟩
      rw [List.mapM_cons, hUnit, hUnits]
      rfl

/-- Parameter sets that are read are those of the stored units, one added after the other. -/
theorem exists_units_of_ofExtradata {data : Bytes} (h : (ofExtradata data).result = .ok sets) :
    ∃ units framing, storedUnits data = .ok units ∧ units.foldlM addUnit { framing } = .ok sets := by
  unfold storedUnits
  split
  case h_1 rest =>
    rw [result_ofExtradata_record] at h
    obtain ⟨record, hRecord, h⟩ := except_bind_eq_ok.mp h
    obtain ⟨framing, _, h⟩ := except_bind_eq_ok.mp h
    obtain ⟨units, hUnits, h⟩ := exists_units_of_foldlM h
    exact ⟨units, framing, except_bind_eq_ok.mpr ⟨record, hRecord, hUnits⟩, h⟩
  case h_2 hOther =>
    unfold ofExtradata at h
    split at h
    all_goals
      simp only [Outcome.result_bind] at h
      obtain ⟨_, hSets, h⟩ := except_bind_eq_ok.mp h
      cases h
    case h_1 => cases hSets
    case h_2 => exact absurd rfl (hOther _)
    case h_3 =>
      rw [result_ofAnnexB] at hSets
      obtain ⟨units, hUnits, hSets⟩ := except_bind_eq_ok.mp hSets
      exact ⟨units, .annexB, hUnits, hSets⟩

/-- The sequence parameter set for an id is read from the last of the stored units that has this id. -/
theorem lookup_of_ofExtradata {data : Bytes} (h : (ofExtradata data).result = .ok sets) (id : Nat) :
    sets.sps.lookup id = (storedSps? data id).map Prod.snd := by
  obtain ⟨units, framing, hUnits, hSets⟩ := exists_units_of_ofExtradata h
  rw [storedSps?, hUnits, lookup_of_foldlM hSets]
  exact Option.or_none

theorem storedSps?_of_active {data : Bytes} {ppsId : Nat} {pps : Pps} {sps : Sps}
    (h : (ofExtradata data).result = .ok sets) (hActive : sets.active ppsId = .ok (pps, sps)) :
    ∃ rbsp, storedSps? data pps.spsId = some (rbsp, sps) := by
  have hSps : sets.sps.lookup pps.spsId = some sps := by
    unfold active at hActive
    split at hActive
    case h_1 => cases hActive
    case h_2 =>
      split at hActive <;> cases hActive
      assumption
  rw [lookup_of_ofExtradata h, Option.map_eq_some_iff] at hSps
  obtain ⟨⟨rbsp, _⟩, hStored, rfl⟩ := hSps
  exact ⟨rbsp, hStored⟩

end ParameterSets

end Cadence
