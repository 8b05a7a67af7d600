import Cadence.ConfigRecord
import Cadence.Proofs.Nal.LengthFields
import Cadence.Proofs.Outcome

/-!
Decoder configuration records. A record can be written if its counts and lengths fit their fields and its
first sequence parameter set says profile and level (`exists_toBytes_iff`). It is read back as it was
written, whatever follows it, unless one of its parameter sets is empty: a length of zero is written, but
reading stops at the first one (`ofBytes_append_of_toBytes`).
-/

namespace Cadence.ConfigRecord

section Sets

variable {kind : SetKind} {sets : List Bytes} {data : Bytes}

/-- A number below 65536 is read back from its two bytes. -/
theorem bigEndian_two {value : Nat} (h : value ≤ 65535) :
    Nal.bigEndian [UInt8.ofNat (value >>> 8), UInt8.ofNat value] = value := by
  have hTwo := Nal.bigEndian_bigEndianBytes 2 value
  rw [Nat.mod_eq_of_lt (by omega)] at hTwo
  exact hTwo

/-- The first parameter set is as long as the field in front of it says. -/
theorem takeSets_cons {set : Bytes} (hSome : set ≠ []) (hShort : set.length ≤ 65535)
    (count index : Nat) (rest : Bytes) :
    takeSets kind (count + 1) index (Nal.bigEndianBytes 2 set.length ++ set ++ rest) = (do
      let (sets, after) ← takeSets kind count (index + 1) rest
      return (set :: sets, after)) := by
  have hData : Nal.bigEndianBytes 2 set.length ++ set ++ rest
      = UInt8.ofNat (set.length >>> 8) :: UInt8.ofNat set.length :: (set ++ rest) := by
    simp [Nal.bigEndianBytes]
  have hLength : ¬ (set.length = 0 ∨ set.length > (set ++ rest).length) := by
    have := List.length_pos_iff.mpr hSome
    rw [List.length_append]
    omega
  rw [hData, takeSets, bigEndian_two hShort]
  dsimp only
  rw [if_neg hLength, List.drop_left, List.take_left]

/-- A length of zero is not read. -/
theorem takeSets_cons_nil (count index : Nat) (rest : Bytes) :
    takeSets kind (count + 1) index (Nal.bigEndianBytes 2 0 ++ [] ++ rest)
      = .error (.recordDataCut kind index 0 rest.length) := by
  have hData : Nal.bigEndianBytes 2 0 ++ [] ++ rest = 0 :: 0 :: rest := rfl
  rw [hData, takeSets]
  exact if_pos (.inl rfl)

theorem setBytes_cons_eq_ok {set : Bytes} :
    setBytes (set :: sets) = .ok data ↔ set.length ≤ 65535 ∧
      ∃ others, setBytes sets = .ok others ∧ data = Nal.bigEndianBytes 2 set.length ++ set ++ others := by
  rw [setBytes]
  split
  case isTrue hLong => exact iff_of_false nofun fun h => absurd h.1 (by omega)
  case isFalse hShort =>
    rw [except_bind_eq_ok, and_iff_right (by omega)]
    exact exists_congr fun others => and_congr_right fun _ =>
      ⟨fun h => (Except.ok.inj h).symm, congrArg Except.ok ∘ Eq.symm⟩

/-- Parameter sets that were written behind their lengths are taken off again. -/
theorem takeSets_of_setBytes (h : setBytes sets = .ok data) (hSets : ∀ set ∈ sets, set ≠ [])
    (index : Nat) (rest : Bytes) :
    takeSets kind sets.length index (data ++ rest) = .ok (sets, rest) := by
  induction sets generalizing data index with
  | nil =>
      cases h
      rfl
  | cons set sets ih =>
      obtain ⟨hShort, others, hOthers, rfl⟩ := setBytes_cons_eq_ok.mp h
      obtain ⟨hSet, hRest⟩ := List.forall_mem_cons.mp hSets
      rw [List.append_assoc, List.length_cons, takeSets_cons hSet hShort, ih hOthers hRest]
      rfl

/-- Taking them off stops at the first one that is empty. -/
theorem takeSets_of_empty (h : setBytes sets = .ok data) {place : Nat}
    (hEmpty : sets.findIdx? List.isEmpty = some place) (index : Nat) (rest : Bytes) :
    ∃ remaining, takeSets kind sets.length index (data ++ rest)
      = .error (.recordDataCut kind (index + place) 0 remaining) := by
  induction sets generalizing data index place with
  | nil => cases hEmpty
  | cons set sets ih =>
      obtain ⟨hShort, others, hOthers, rfl⟩ := setBytes_cons_eq_ok.mp h
      rw [List.findIdx?_cons] at hEmpty
      split at hEmpty
      case isTrue hNil =>
        cases hEmpty
        obtain rfl := List.isEmpty_iff.mp hNil
        rw [List.append_assoc]
        exact ⟨_, takeSets_cons_nil sets.length index (others ++ rest)⟩
      case isFalse hSome =>
        obtain ⟨later, hLater, rfl⟩ := Option.map_eq_some_iff.mp hEmpty
        obtain ⟨remaining, hTake⟩ := ih hOthers hLater (index + 1)
        refine ⟨remaining, ?_⟩
        rw [List.append_assoc, List.length_cons,
          takeSets_cons (mt List.isEmpty_iff.mpr hSome) hShort, hTake, Nat.add_assoc index 1,
          Nat.add_comm 1]
        rfl

/-- Parameter sets can be written exactly if the length of each fits two bytes. -/
theorem exists_setBytes_iff :
    (∃ data, setBytes sets = .ok data) ↔ ∀ set ∈ sets, set.length ≤ 65535 := by
  induction sets with
  | nil => exact iff_of_true ⟨[], rfl⟩ nofun
  | cons set sets ih =>
      rw [List.forall_mem_cons, ← ih]
      constructor
      · rintro ⟨data, h⟩
        obtain ⟨hShort, others, hOthers, -⟩ := setBytes_cons_eq_ok.mp h
        exact ⟨hShort, others, hOthers⟩
      · rintro ⟨hShort, others, hOthers⟩
        exact ⟨_, setBytes_cons_eq_ok.mpr ⟨hShort, others, hOthers, rfl⟩⟩

end Sets

/-- The counts and lengths of a record fit their fields, and its first sequence parameter set is long
enough to say profile and level. -/
structure Writable (record : ConfigRecord) : Prop where
  lengthSize : 0 < record.lengthSize ∧ record.lengthSize ≤ 4
  first : ∃ set ∈ record.sps.head?, 4 ≤ set.length
  counts : record.sps.length ≤ 31 ∧ record.pps.length ≤ 255
  lengths : ∀ set ∈ record.sps ++ record.pps, set.length ≤ 65535

/-- The kind and the place of the first parameter set that is empty. -/
def firstEmpty? (record : ConfigRecord) : Option (SetKind × Nat) :=
  match record.sps.findIdx? List.isEmpty with
  | some place => some (.sequence, place)
  | none => (record.pps.findIdx? List.isEmpty).map (.picture, ·)

/-- What a record holds behind the count of its sequence parameter sets. -/
def readSets (lengthSize count : Nat) (data : Bytes) : Except Fault ConfigRecord := do
  let (sps, after) ← takeSets .sequence count 0 data
  match after with
  | [] => throw .recordWithoutPictureSets
  | count :: after => do
    let (pps, _) ← takeSets .picture count.toNat 0 after
    return ⟨sps, pps, lengthSize⟩

section Record

variable {record : ConfigRecord} {data : Bytes}

/-- A record is written in front of its parameter sets, from which it is read again. -/
theorem exists_of_toBytes (h : record.toBytes = .ok data) :
    ∃ sps pps rest, setBytes record.sps = .ok sps ∧ setBytes record.pps = .ok pps ∧ data = 1 :: rest ∧
      record.Writable ∧ ∀ trailing, ofBytes (data ++ trailing)
        = readSets record.lengthSize record.sps.length
            (sps ++ UInt8.ofNat record.pps.length :: (pps ++ trailing)) := by
  obtain ⟨framing, hFraming, h⟩ := except_bind_eq_ok.mp h
  obtain ⟨size, hSize, rfl⟩ := Nal.Framing.exists_of_ofLengthSize hFraming
  have hPos := size.pos
  have hLe := size.le_four
  split at h
  case h_1 => cases h
  case h_2 header profile constraints level more others hFirst =>
    split at h
    case isTrue => cases h
    case isFalse hCounts =>
      rw [not_or, Nat.not_lt, Nat.not_lt] at hCounts
      obtain ⟨sps, hSps, h⟩ := except_bind_eq_ok.mp h
      obtain ⟨pps, hPps, h⟩ := except_bind_eq_ok.mp h
      cases h
      have hSizeByte : ∀ value < 4, (0xFC ||| UInt8.ofNat value).toNat % 4 = value := by decide
      have hCountByte : ∀ value < 32, (0xE0 ||| UInt8.ofNat value).toNat % 32 = value := by decide
      have hLengthSize : (0xFC ||| UInt8.ofNat ((Nal.Framing.lengthPrefixed size).headerSize - 1)).toNat
          % 4 + 1 = record.lengthSize := by
        rw [Nal.Framing.headerSize, hSizeByte _ (by omega)]
        omega
      refine ⟨sps, pps, _, hSps, hPps, rfl, ⟨by omega, ?_, hCounts, ?_⟩, fun trailing => ?_⟩
      · rw [hFirst]
        exact ⟨_, rfl, by simp⟩
      · exact List.forall_mem_append.mpr
          ⟨exists_setBytes_iff.mp ⟨sps, hSps⟩, exists_setBytes_iff.mp ⟨pps, hPps⟩⟩
      · obtain ⟨next, rest, hBody⟩ := List.exists_cons_of_ne_nil
          (List.append_ne_nil_of_right_ne_nil sps
            (List.cons_ne_nil (UInt8.ofNat record.pps.length) (pps ++ trailing)))
        simp only [List.cons_append, List.nil_append, List.append_assoc, hBody]
        rw [ofBytes, if_neg (not_not.mpr rfl), hCountByte _ (Nat.lt_succ_of_le hCounts.1), hLengthSize]
        rfl
  case h_3 => cases h

/-- A record can be written exactly if all its parts fit their fields. -/
theorem exists_toBytes_iff : (∃ data, record.toBytes = .ok data) ↔ record.Writable := by
  constructor
  · rintro ⟨data, h⟩
    obtain ⟨-, -, -, -, -, -, hWritable, -⟩ := exists_of_toBytes h
    exact hWritable
  · intro h
    obtain ⟨first, hFirst, hFour⟩ := h.first
    obtain ⟨others, hSps⟩ := List.head?_eq_some_iff.mp hFirst
    obtain ⟨header, profile, constraints, level, more, rfl⟩ : ∃ header profile constraints level more,
        first = header :: profile :: constraints :: level :: more := by
      match first, hFour with
      | header :: profile :: constraints :: level :: more, _ =>
          exact ⟨header, profile, constraints, level, more, rfl⟩
    obtain ⟨hSpsLengths, hPpsLengths⟩ := List.forall_mem_append.mp h.lengths
    obtain ⟨sps, hSpsBytes⟩ := exists_setBytes_iff.mpr hSpsLengths
    obtain ⟨pps, hPpsBytes⟩ := exists_setBytes_iff.mpr hPpsLengths
    have hFraming := Nal.Framing.ofLengthSize_bytes ⟨record.lengthSize, h.lengthSize.1, h.lengthSize.2⟩
    have hCounts : ¬ (record.sps.length > 31 ∨ record.pps.length > 255) := by
      have := h.counts
      omega
    obtain ⟨sets, pictures, lengthSize⟩ := record
    obtain rfl : sets = _ := hSps
    dsimp only at hFraming hSpsBytes hPpsBytes
    rw [toBytes, hFraming]
    dsimp only [bind, Except.bind]
    rw [if_neg hCounts, hSpsBytes, hPpsBytes]
    exact ⟨_, rfl⟩

theorem ne_nil_of_findIdx? {sets : List Bytes} (h : sets.findIdx? List.isEmpty = none) :
    ∀ set ∈ sets, set ≠ [] := by
  rintro _ hSet rfl
  cases List.findIdx?_eq_none_iff.mp h [] hSet

/-- Behind sequence parameter sets that can be read, the picture parameter sets are counted and read. -/
theorem readSets_of_setBytes {sets : List Bytes} {sps : Bytes} (hSps : setBytes sets = .ok sps)
    (hSets : ∀ set ∈ sets, set ≠ []) {count : Nat} (hCount : count ≤ 255) (lengthSize : Nat)
    (rest : Bytes) :
    readSets lengthSize sets.length (sps ++ UInt8.ofNat count :: rest)
      = (takeSets .picture count 0 rest).map fun taken => ⟨sets, taken.1, lengthSize⟩ := by
  have hByte : (UInt8.ofNat count).toNat = count := UInt8.toNat_ofNat_of_lt' (Nat.lt_succ_of_le hCount)
  rw [readSets, takeSets_of_setBytes hSps hSets]
  dsimp only [bind, Except.bind]
  rw [hByte]
  cases takeSets .picture count 0 rest <;> rfl

/-- A record that is written is read back, and its first byte is its version number. -/
theorem ofBytes_of_toBytes (h : record.toBytes = .ok data) (hSps : ∀ set ∈ record.sps, set ≠ [])
    (hPps : ∀ set ∈ record.pps, set ≠ []) (trailing : Bytes) :
    ∃ rest, data = 1 :: rest ∧ ofBytes (data ++ trailing) = .ok record := by
  obtain ⟨sps, pps, rest, hSpsBytes, hPpsBytes, hData, hWritable, hRead⟩ := exists_of_toBytes h
  refine ⟨rest, hData, ?_⟩
  rw [hRead, readSets_of_setBytes hSpsBytes hSps hWritable.counts.2, takeSets_of_setBytes hPpsBytes hPps]
  rfl

/-- Whatever follows a record, it is read back as it was written, or reading stops at its first parameter
set that is empty. -/
theorem ofBytes_append_of_toBytes (record : ConfigRecord) :
    ((∃ data, record.toBytes = .ok data) ↔ record.Writable) ∧
      ∀ data, record.toBytes = .ok data → ∀ trailing,
        match record.firstEmpty? with
        | none => ofBytes (data ++ trailing) = .ok record
        | some (kind, place) =>
          ∃ remaining, ofBytes (data ++ trailing) = .error (.recordDataCut kind place 0 remaining) := by
  refine ⟨exists_toBytes_iff, fun data h trailing => ?_⟩
  obtain ⟨sps, pps, -, hSps, hPps, -, hWritable, hRead⟩ := exists_of_toBytes h
  rw [firstEmpty?]
  cases hSequence : record.sps.findIdx? List.isEmpty with
  | some place =>
      obtain ⟨remaining, hTake⟩ := @takeSets_of_empty .sequence _ _ hSps _ hSequence 0
        (UInt8.ofNat record.pps.length :: (pps ++ trailing))
      refine ⟨remaining, ?_⟩
      rw [hRead, readSets, hTake, Nat.zero_add]
      rfl
  | none =>
      have hSets := ne_nil_of_findIdx? hSequence
      cases hPicture : record.pps.findIdx? List.isEmpty with
      | some place =>
          obtain ⟨remaining, hTake⟩ := @takeSets_of_empty .picture _ _ hPps _ hPicture 0 trailing
          refine ⟨remaining, ?_⟩
          rw [hRead, readSets_of_setBytes hSps hSets hWritable.counts.2, hTake, Nat.zero_add]
          rfl
      | none =>
          obtain ⟨-, -, hBack⟩ := ofBytes_of_toBytes h hSets (ne_nil_of_findIdx? hPicture) trailing
          exact hBack

/-- Two parameter sets of either kind, some of them too short for a decoder. -/
def samplePairs : ConfigRecord :=
  ⟨[[0x67, 0x42, 0x00, 0x1E], [0x67]], [[0x68, 0xCE], [0x00]], 2⟩

/-- The bytes behind the record are those that a high profile has there. -/
theorem ofBytes_append_of_toBytes_samplePairs :
    samplePairs.toBytes = .ok [1, 0x42, 0x00, 0x1E, 0xFD, 0xE2, 0, 4, 0x67, 0x42, 0x00, 0x1E, 0, 1, 0x67,
        2, 0, 2, 0x68, 0xCE, 0, 1, 0x00] ∧
      ofBytes ([1, 0x42, 0x00, 0x1E, 0xFD, 0xE2, 0, 4, 0x67, 0x42, 0x00, 0x1E, 0, 1, 0x67,
        2, 0, 2, 0x68, 0xCE, 0, 1, 0x00] ++ [0xFD, 0xF8, 0xF8, 0]) = .ok samplePairs := by
  have h : samplePairs.toBytes = .ok [1, 0x42, 0x00, 0x1E, 0xFD, 0xE2, 0, 4, 0x67, 0x42, 0x00, 0x1E, 0, 1,
      0x67, 2, 0, 2, 0x68, 0xCE, 0, 1, 0x00] := by decide
  exact ⟨h, (ofBytes_append_of_toBytes samplePairs).2 _ h _⟩

/-- A record with one picture parameter set, which is empty, is written, and cannot be read. -/
theorem ofBytes_blank_refused :
    toBytes ⟨[[0x67, 0x42, 0x00, 0x1E]], [[]], 4⟩
        = .ok [1, 0x42, 0x00, 0x1E, 0xFF, 0xE1, 0, 4, 0x67, 0x42, 0x00, 0x1E, 1, 0, 0] ∧
      ofBytes [1, 0x42, 0x00, 0x1E, 0xFF, 0xE1, 0, 4, 0x67, 0x42, 0x00, 0x1E, 1, 0, 0]
        = .error (.recordDataCut .picture 0 0 0) := by
  decide

end Record

end Cadence.ConfigRecord
