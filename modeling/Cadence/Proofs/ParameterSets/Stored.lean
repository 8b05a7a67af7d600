import Cadence.ParameterSets
import Cadence.Proofs.ConfigRecord
import Cadence.Proofs.Nal.Transport

/-!
Parameter sets do not depend on the form in which they are stored. The same units give the same sets, or
the same fault, from a decoder configuration record and from behind start codes; only the framing of the
packets differs (`ofExtradata_forms`).
-/

namespace Cadence

open NalUnit (Parts)

namespace ParameterSets

/-- Sets that are otherwise kept, with another framing. -/
def withFraming (framing : Nal.Framing) (sets : ParameterSets) : ParameterSets :=
  { sets with framing }

/-- What is added to parameter sets does not depend on their framing. -/
theorem addUnit_withFraming (framing : Nal.Framing) (sets : ParameterSets) (unit : NalUnit) :
    (sets.withFraming framing).addUnit unit = (sets.addUnit unit).map (withFraming framing) := by
  unfold addUnit
  split
  case h_1 => cases Sps.ofRbsp unit.rbsp <;> rfl
  case h_2 => cases Pps.ofRbsp unit.rbsp <;> rfl
  case h_3 => rfl

theorem foldlM_addUnit_withFraming (framing : Nal.Framing) (units : List NalUnit)
    (sets : ParameterSets) :
    units.foldlM addUnit (sets.withFraming framing)
      = (units.foldlM addUnit sets).map (withFraming framing) := by
  induction units generalizing sets with
  | nil => rfl
  | cons unit units ih =>
      rw [List.foldlM_cons, List.foldlM_cons, addUnit_withFraming]
      cases sets.addUnit unit with
      | error fault => rfl
      | ok added => exact ih added

/-- Adding the bytes of units is adding the units. -/
theorem foldlM_addBytes (units : List Parts) (sets : ParameterSets) :
    (units.map Parts.bytes).foldlM addBytes sets = (units.map Parts.unit).foldlM addUnit sets := by
  induction units generalizing sets with
  | nil => rfl
  | cons parts units ih =>
      have hAdd : sets.addBytes parts.bytes = sets.addUnit parts.unit := by
        rw [addBytes, parts.ofBytes_bytes]
        rfl
      rw [List.map_cons, List.map_cons, List.foldlM_cons, List.foldlM_cons, hAdd]
      cases sets.addUnit parts.unit with
      | error fault => rfl
      | ok added => exact ih added

theorem result_ofAnnexB (data : Bytes) :
    (ofAnnexB data).result
      = NalUnit.split .annexB data >>= fun units => units.foldlM addUnit { framing := .annexB } := by
  unfold ofAnnexB NalUnit.split
  simp only [Outcome.result_bind]
  cases Nal.scan .annexB data with
  | error fault => rfl
  | ok scan =>
      have hUnits := Outcome.result_mapM (fun span => NalUnit.ofBytes (span.bytes data)) scan.spans
      show (scan.spans.mapM fun span => Outcome.ofExcept (NalUnit.ofBytes (span.bytes data))).result
        >>= _ = scan.spans.mapM _ >>= _
      rw [hUnits]
      rfl

/-- Data that begins with a version byte is read as a record. -/
theorem result_ofExtradata_record (rest : Bytes) :
    (ofExtradata (1 :: rest)).result = ofRecord (1 :: rest) := by
  show (Outcome.bind (.ofExcept (ofRecord (1 :: rest))) _).result = _
  cases ofRecord (1 :: rest) <;> rfl

/-- Data that begins with a zero byte is read as units behind start codes. -/
theorem result_ofExtradata_zero (rest : Bytes) :
    (ofExtradata (0 :: rest)).result = (ofAnnexB (0 :: rest)).result := by
  show (Outcome.bind (ofAnnexB (0 :: rest)) _).result = _
  unfold Outcome.bind
  cases (ofAnnexB (0 :: rest)).result <;> rfl

/-- Adding units leaves the framing as it is. -/
theorem framing_of_foldlM {units : List NalUnit} {sets last : ParameterSets}
    (h : units.foldlM addUnit sets = .ok last) : last.framing = sets.framing := by
  have hSame := foldlM_addUnit_withFraming sets.framing units sets
  have hInner : units.foldlM addUnit (sets.withFraming sets.framing) = .ok last := h
  rw [hInner, h] at hSame
  change Except.ok last = .ok (last.withFraming sets.framing) at hSame
  have hLast : last = last.withFraming sets.framing := Except.ok.inj hSame
  calc last.framing = (last.withFraming sets.framing).framing := congrArg framing hLast
    _ = sets.framing := rfl

/-- The parameter sets of a record are those of its units, one added after the other. -/
theorem ofRecord_of_toBytes {sps pps : List Parts} {lengthSize : Nat} {record : Bytes}
    (h : ConfigRecord.toBytes ⟨sps.map Parts.bytes, pps.map Parts.bytes, lengthSize⟩ = .ok record) :
    ∃ (size : Nal.LengthSize) (rest : Bytes), size.bytes = lengthSize ∧ record = 1 :: rest ∧
      ofRecord record
        = ((sps ++ pps).map Parts.unit).foldlM addUnit { framing := .lengthPrefixed size } := by
  have hSome (units : List Parts) : ∀ set ∈ units.map Parts.bytes, set ≠ [] := by
    intro set hSet
    obtain ⟨parts, _, rfl⟩ := List.mem_map.mp hSet
    exact parts.bytes_ne_nil
  obtain ⟨rest, hFirst, hRead⟩ := ConfigRecord.ofBytes_of_toBytes h (hSome sps) (hSome pps) []
  obtain ⟨framing, hFraming, _⟩ := except_bind_eq_ok.mp h
  obtain ⟨size, hSize, rfl⟩ := Nal.Framing.exists_of_ofLengthSize hFraming
  refine ⟨size, rest, hSize, hFirst, ?_⟩
  rw [List.append_nil] at hRead
  rw [← foldlM_addBytes, List.map_append, ofRecord, hRead]
  show (Nal.Framing.ofLengthSize lengthSize >>= _) = _
  rw [hFraming]
  rfl

/-- The parameter sets among units behind start codes are those of the units, too. -/
theorem ofAnnexB_stream {coded : List (Nal.StartCode.Form × Parts)} (hCount : coded.length ≤ 128) :
    (ofAnnexB (Nal.StartCode.stream coded)).result
      = ((coded.map Prod.snd).map Parts.unit).foldlM addUnit { framing := .annexB } := by
  have hUnits : (coded.map Prod.snd).length ≤ 128 := by rwa [List.length_map]
  have hSplit := (Nal.finds_layout_stream 0 coded).split hUnits
  rw [List.replicate_zero, List.nil_append] at hSplit
  rw [result_ofAnnexB, hSplit]
  rfl

/-- Whether up to 128 units are stored in a record or behind start codes, they give the same parameter
sets for all ids, or the same fault. The record tells the size of the length fields in packets. -/
theorem ofExtradata_forms {sps pps : List Parts} {lengthSize : Nat} {record : Bytes}
    (hRecord : ConfigRecord.toBytes ⟨sps.map Parts.bytes, pps.map Parts.bytes, lengthSize⟩
      = .ok record)
    (hCount : sps.length + pps.length ≤ 128) {coded : List (Nal.StartCode.Form × Parts)}
    (hCoded : coded.map Prod.snd = sps ++ pps) :
    (∃ fault, (ofExtradata record).result = .error fault ∧
      (ofExtradata (Nal.StartCode.stream coded)).result = .error fault) ∨
    ∃ fromRecord fromStream, (ofExtradata record).result = .ok fromRecord ∧
      (ofExtradata (Nal.StartCode.stream coded)).result = .ok fromStream ∧
      (∀ id, fromRecord.sps.lookup id = fromStream.sps.lookup id ∧
        fromRecord.pps.lookup id = fromStream.pps.lookup id) ∧
      (∃ size : Nal.LengthSize, size.bytes = lengthSize ∧
        fromRecord.framing = .lengthPrefixed size) ∧
      fromStream.framing = .annexB := by
  obtain ⟨size, rest, hSize, rfl, hSets⟩ := ofRecord_of_toBytes hRecord
  have hLength : coded.length ≤ 128 := by
    rwa [← List.length_map Prod.snd, hCoded, List.length_append]
  obtain ⟨others, hStream⟩ : ∃ others, Nal.StartCode.stream coded = 0 :: others := by
    match coded with
    | [] =>
        obtain ⟨rfl, rfl⟩ := List.nil_eq_append_iff.mp hCoded
        obtain ⟨_, _, hNone⟩ := except_bind_eq_ok.mp hRecord
        cases hNone
    | (form, parts) :: coded => cases form <;> exact ⟨_, rfl⟩
  have hUnits := ofAnnexB_stream hLength
  rw [hStream] at hUnits ⊢
  rw [result_ofExtradata_record, result_ofExtradata_zero, hSets, hUnits, hCoded]
  have hSame : ((sps ++ pps).map Parts.unit).foldlM addUnit { framing := .lengthPrefixed size }
      = (((sps ++ pps).map Parts.unit).foldlM addUnit { framing := .annexB }).map
        (withFraming (.lengthPrefixed size)) := foldlM_addUnit_withFraming _ _ { framing := .annexB }
  rw [hSame]
  cases hFold : ((sps ++ pps).map Parts.unit).foldlM addUnit { framing := .annexB } with
  | error fault => exact .inl ⟨fault, rfl, rfl⟩
  | ok sets =>
      exact .inr ⟨_, sets, rfl, rfl, fun id => ⟨rfl, rfl⟩, ⟨size, hSize, rfl⟩, framing_of_foldlM hFold⟩

/-- A sequence parameter set with a start code behind its elements, as it may be stored. -/
def sampleSps : Parts :=
  { header := 0x27, rbsp := [0x42, 0xC0, 0x1E, 0xDA, 0x25, 0x90, 0, 0, 1, 0x80] }

/-- Two picture parameter sets with the same id, of which the last one counts. -/
def samplePps : List Parts :=
  [{ header := 0x68, rbsp := [0xCE, 0x3C, 0x80] }, { header := 0x68, rbsp := [0xEE, 0x3C, 0x80] }]

def sampleRecord : Bytes :=
  [0x01, 0x42, 0xC0, 0x1E, 0xFF, 0xE1, 0x00, 0x0C,
    0x27, 0x42, 0xC0, 0x1E, 0xDA, 0x25, 0x90, 0x00, 0x00, 0x03, 0x01, 0x80,
    0x02, 0x00, 0x04, 0x68, 0xCE, 0x3C, 0x80, 0x00, 0x04, 0x68, 0xEE, 0x3C, 0x80]

def sampleCoded : List (Nal.StartCode.Form × Parts) :=
  [.long, .short, .short].zip (sampleSps :: samplePps)

theorem ofExtradata_forms_sample :
    ConfigRecord.toBytes ⟨[sampleSps].map Parts.bytes, samplePps.map Parts.bytes, 4⟩
        = .ok sampleRecord ∧
      [sampleSps].length + samplePps.length ≤ 128 ∧
      sampleCoded.map Prod.snd = [sampleSps] ++ samplePps ∧
      ∃ fromRecord fromStream, (ofExtradata sampleRecord).result = .ok fromRecord ∧
        (ofExtradata (Nal.StartCode.stream sampleCoded)).result = .ok fromStream ∧
        (∀ id, fromRecord.sps.lookup id = fromStream.sps.lookup id ∧
          fromRecord.pps.lookup id = fromStream.pps.lookup id) ∧
        (∃ size : Nal.LengthSize, size.bytes = 4 ∧ fromRecord.framing = .lengthPrefixed size) ∧
        fromStream.framing = .annexB := by
  have hRecord : ConfigRecord.toBytes ⟨[sampleSps].map Parts.bytes, samplePps.map Parts.bytes, 4⟩
      = .ok sampleRecord := by decide +kernel
  have hCount : [sampleSps].length + samplePps.length ≤ 128 := by decide
  have hCoded : sampleCoded.map Prod.snd = [sampleSps] ++ samplePps := rfl
  refine ⟨hRecord, hCount, hCoded, ?_⟩
  rcases ofExtradata_forms hRecord hCount hCoded with ⟨fault, hFault, _⟩ | hSets
  · have hRead : (ofExtradata sampleRecord).result.toOption.isSome := by decide +kernel
    rw [hFault] at hRead
    contradiction
  · exact hSets

end ParameterSets

end Cadence
