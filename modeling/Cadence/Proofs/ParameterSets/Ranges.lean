import Cadence.ParameterSets
import Cadence.Proofs.Bits.Reading
import Cadence.Proofs.Outcome

/-!
What the values in parameter sets can be. Whatever bytes they come from, parameter sets that are read
without a fault keep to the ranges that are checked on the way (`inRange_of_ofExtradata`).
-/

namespace Cadence

namespace BitReader

variable {α β : Type}

/-- Every value that is read has a property. -/
def Read.Ensures (holds : α → Prop) (read : Read α) : Prop :=
  ∀ r a s, read r = .ok a s → holds a

namespace Read.Ensures

variable {holds : α → Prop}

theorem pure {a : α} (h : holds a) : Ensures holds (pure a : Read α) := by
  intro r b s hPure
  cases hPure
  exact h

theorem bind {first : Read β} {next : β → Read α} (h : ∀ b, Ensures holds (next b)) :
    Ensures holds (first >>= next) := by
  intro r a t hBind
  obtain ⟨b, s, _, hNext⟩ := bind_eq_ok.mp hBind
  exact h b s a t hNext

theorem guard {condition : Prop} [Decidable condition] {fault : Fault} {next : Unit → Read α}
    (h : ¬ condition → Ensures holds (next ())) :
    Ensures holds (if condition then throw fault >>= next else next ()) := by
  intro r a t hRead
  split at hRead
  case isTrue =>
    obtain ⟨_, _, hThrow, _⟩ := bind_eq_ok.mp hRead
    cases hThrow
  case isFalse hPassed => exact h hPassed r a t hRead

theorem onlyIf {condition : Prop} [Decidable condition] {first : Read Unit}
    {next : Unit → Read α} (h : ∀ u, Ensures holds (next u)) :
    Ensures holds (if condition then first >>= next else next ()) := by
  intro r a t hRead
  split at hRead
  case isTrue => exact bind h r a t hRead
  case isFalse => exact h () r a t hRead

theorem either {condition : Prop} [Decidable condition] {first second : Read β}
    {next : β → Read α} (h : ∀ b, Ensures holds (next b)) :
    Ensures holds (if condition then first >>= next else second >>= next) := by
  intro r a t hRead
  split at hRead
  case isTrue => exact bind h r a t hRead
  case isFalse => exact bind h r a t hRead

theorem of_value? {read : Read α} {data : Bytes} {a : α} (h : Ensures holds read)
    (hValue : read.value? data = .ok a) : holds a := by
  unfold Read.value? at hValue
  split at hValue
  case h_1 value s hOk =>
    cases hValue
    exact h _ _ _ hOk
  case h_2 => cases hValue

end Read.Ensures

end BitReader

open BitReader

/-- The sizes that a sequence parameter set can give. -/
structure Sps.InRange (sps : Sps) : Prop where
  numberWidth : 4 ≤ sps.log2MaxFrameNum ∧ sps.log2MaxFrameNum ≤ 16
  width : sps.widthInMbs ≤ 1024
  height : sps.heightInMapUnits ≤ 1024

/-- The values that a picture parameter set can give, as far as skipped pictures depend on them. -/
structure Pps.InRange (pps : Pps) : Prop where
  refs : 1 ≤ pps.defaultRefs0 ∧ pps.defaultRefs0 ≤ 32
  initialQp : 0 ≤ pps.initialQp ∧ pps.initialQp ≤ 51

/-- Every sequence parameter set that is read is in range. -/
theorem Sps.inRange_of_read : Read.Ensures Sps.InRange Sps.read := by
  unfold Sps.read
  -- The steps are those of the reader, and the checks that bound a size are named.
  refine .bind fun profile => .bind fun _ => .bind fun level => .bind fun id => .guard fun _ => ?_
  refine .bind fun chroma => .bind fun frameNumBits => .guard fun hBits => ?_
  refine .bind fun pocType => .bind fun maxRefFrames => .guard fun _ => .bind fun gaps => ?_
  refine .bind fun width => .bind fun height => .guard fun hSize => .bind fun frameMbsOnly => ?_
  refine .onlyIf fun _ => .bind fun _ => .bind fun cropping => .guard fun _ => .pure ?_
  constructor
  all_goals
    dsimp only
    omega

/-- Every picture parameter set that is read is in range. -/
theorem Pps.inRange_of_read : Read.Ensures Pps.InRange Pps.read := by
  unfold Pps.read
  refine .bind fun id => .guard fun _ => .bind fun spsId => .guard fun _ => ?_
  refine .bind fun cabac => .bind fun picOrder => .bind fun groups => .guard fun _ => ?_
  refine .either fun mapType => .bind fun refs0 => .bind fun refs1 => .guard fun hRefs => ?_
  refine .bind fun weighted => .bind fun bipred => .guard fun _ => .bind fun delta => ?_
  refine .bind fun qp => .guard fun hQp => .bind fun _ => .bind fun chromaQp => .guard fun _ => ?_
  refine .bind fun deblocking => .bind fun intra => .bind fun redundant => .pure ?_
  constructor
  all_goals
    dsimp only
    omega

theorem Sps.inRange_of_ofRbsp {rbsp : Bytes} {sps : Sps} (h : Sps.ofRbsp rbsp = .ok sps) :
    sps.InRange := by
  unfold Sps.ofRbsp at h
  split at h
  case isTrue => cases h
  case isFalse => exact Sps.inRange_of_read.of_value? h

theorem Pps.inRange_of_ofRbsp {rbsp : Bytes} {pps : Pps} (h : Pps.ofRbsp rbsp = .ok pps) :
    pps.InRange := by
  unfold Pps.ofRbsp at h
  split at h
  case isTrue => cases h
  case isFalse => exact Pps.inRange_of_read.of_value? h

theorem Table.lookup_put_eq_some {Key Value : Type} [DecidableEq Key] {table : Table Key Value}
    {key other : Key} {value found : Value} (h : (table.put key value).lookup other = some found) :
    found = value ∨ table.lookup other = some found := by
  by_cases hKey : other = key
  · subst hKey
    rw [Table.lookup_put_self] at h
    cases h
    exact .inl rfl
  · rw [Table.lookup_put_of_ne _ _ hKey] at h
    exact .inr h

namespace ParameterSets

structure InRange (sets : ParameterSets) : Prop where
  sps : ∀ id sps, sets.sps.lookup id = some sps → sps.InRange
  pps : ∀ id pps, sets.pps.lookup id = some pps → pps.InRange

theorem InRange.empty (framing : Nal.Framing) : InRange { framing } where
  sps := by
    intro id sps h
    cases h
  pps := by
    intro id pps h
    cases h

/-- One more unit keeps the sets in range. -/
theorem InRange.addUnit {sets added : ParameterSets} {unit : NalUnit} (h : sets.InRange)
    (hAdded : sets.addUnit unit = .ok added) : added.InRange := by
  unfold ParameterSets.addUnit at hAdded
  split at hAdded
  case h_1 =>
    obtain ⟨sps, hSps, hAdded⟩ := except_bind_eq_ok.mp hAdded
    cases hAdded
    refine ⟨fun id other hOther => ?_, h.pps⟩
    rcases Table.lookup_put_eq_some hOther with rfl | hOther
    · exact Sps.inRange_of_ofRbsp hSps
    · exact h.sps id other hOther
  case h_2 =>
    obtain ⟨pps, hPps, hAdded⟩ := except_bind_eq_ok.mp hAdded
    cases hAdded
    refine ⟨h.sps, fun id other hOther => ?_⟩
    rcases Table.lookup_put_eq_some hOther with rfl | hOther
    · exact Pps.inRange_of_ofRbsp hPps
    · exact h.pps id other hOther
  case h_3 =>
    cases hAdded
    exact h

/-- Any number of units keep the sets in range, by induction over them. -/
theorem InRange.foldlM {α : Type} {add : ParameterSets → α → Except Fault ParameterSets}
    (hAdd : ∀ sets item added, InRange sets → add sets item = .ok added → InRange added)
    {items : List α} {sets last : ParameterSets} (h : sets.InRange)
    (hLast : items.foldlM add sets = .ok last) : last.InRange := by
  induction items generalizing sets with
  | nil =>
      cases hLast
      exact h
  | cons item items ih =>
      obtain ⟨added, hAdded, hLast⟩ := except_bind_eq_ok.mp hLast
      exact ih (hAdd sets item added h hAdded) hLast

theorem inRange_of_ofRecord {data : Bytes} {sets : ParameterSets} (h : ofRecord data = .ok sets) :
    sets.InRange := by
  obtain ⟨record, _, h⟩ := except_bind_eq_ok.mp h
  obtain ⟨framing, _, h⟩ := except_bind_eq_ok.mp h
  refine InRange.foldlM (fun sets bytes added hSets hAdded => ?_) (.empty framing) h
  obtain ⟨unit, _, hAdded⟩ := except_bind_eq_ok.mp hAdded
  exact hSets.addUnit hAdded

theorem inRange_of_ofAnnexB {data : Bytes} {sets : ParameterSets}
    (h : (ofAnnexB data).result = .ok sets) : sets.InRange := by
  unfold ofAnnexB at h
  simp only [Outcome.result_bind] at h
  obtain ⟨scan, _, h⟩ := except_bind_eq_ok.mp h
  obtain ⟨_, _, h⟩ := except_bind_eq_ok.mp h
  obtain ⟨units, _, h⟩ := except_bind_eq_ok.mp h
  exact InRange.foldlM (fun _ _ _ hSets hAdded => hSets.addUnit hAdded) (.empty .annexB) h

/-- Parameter sets that are stored beside a stream, in either form. -/
theorem inRange_of_ofExtradata {data : Bytes} {sets : ParameterSets}
    (h : (ofExtradata data).result = .ok sets) : sets.InRange := by
  unfold ofExtradata at h
  split at h
  all_goals
    simp only [Outcome.result_bind] at h
    obtain ⟨_, hSets, h⟩ := except_bind_eq_ok.mp h
    cases h
  case h_1 => cases hSets
  case h_2 => exact inRange_of_ofRecord hSets
  case h_3 => exact inRange_of_ofAnnexB hSets

/-- The sets that a slice refers to are in range. -/
theorem InRange.active {sets : ParameterSets} {ppsId : Nat} {pps : Pps} {sps : Sps}
    (h : sets.InRange) (hActive : sets.active ppsId = .ok (pps, sps)) :
    pps.InRange ∧ sps.InRange := by
  unfold ParameterSets.active at hActive
  split at hActive
  case h_1 => cases hActive
  case h_2 hPps =>
    split at hActive
    case h_1 => cases hActive
    case h_2 hSps =>
      cases hActive
      exact ⟨h.pps _ _ hPps, h.sps _ _ hSps⟩

end ParameterSets

end Cadence
