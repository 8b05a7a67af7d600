import Mathlib.Data.List.Pairwise
import Cadence.Nal.Scan

/-!
Units do not share bytes. Whatever the framing and however damaged the data, the units of a packet
lie within it, one behind the other (`scan_laid`).
-/

namespace Cadence.Nal

/-- Units between two offsets, in order and apart from each other. -/
structure Laid (start stop : Nat) (extents : List Extent) : Prop where
  within : ∀ extent ∈ extents,
    start ≤ extent.offset ∧ 0 < extent.size ∧ extent.offset + extent.size ≤ stop
  apart : extents.Pairwise fun first later => first.offset + first.size ≤ later.offset

namespace Laid

theorem nil (start stop : Nat) : Laid start stop [] :=
  ⟨by simp, .nil⟩

theorem cons {start middle stop : Nat} {extent : Extent} {extents : List Extent}
    (hStart : start ≤ extent.offset) (hSize : 0 < extent.size)
    (hMiddle : extent.offset + extent.size ≤ middle) (hStop : middle ≤ stop)
    (rest : Laid middle stop extents) : Laid start stop (extent :: extents) where
  within := by
    intro other hOther
    rcases List.mem_cons.mp hOther with rfl | hOther
    · exact ⟨hStart, hSize, by omega⟩
    · obtain ⟨hFrom, hPos, hTill⟩ := rest.within other hOther
      exact ⟨by omega, hPos, hTill⟩
  apart := by
    refine List.pairwise_cons.mpr ⟨fun other hOther => ?_, rest.apart⟩
    exact Nat.le_trans hMiddle (rest.within other hOther).1

/-- Any two units of a layout lie apart. -/
theorem disjoint {start stop : Nat} {extents : List Extent} (h : Laid start stop extents)
    {first other : Extent} (hFirst : first ∈ extents) (hOther : other ∈ extents) (hNe : first ≠ other) :
    first.offset + first.size ≤ other.offset ∨ other.offset + other.size ≤ first.offset := by
  have hSymm : Std.Symm fun first other : Extent =>
      first.offset + first.size ≤ other.offset ∨ other.offset + other.size ≤ first.offset :=
    ⟨fun _ _ => Or.symm⟩
  have hEither : extents.Pairwise fun first other : Extent =>
      first.offset + first.size ≤ other.offset ∨ other.offset + other.size ≤ first.offset :=
    h.apart.imp Or.inl
  exact hEither.forall hFirst hOther hNe

end Laid

theorem sizeBefore_le (data : Bytes) (code : Nat) : sizeBefore data code ≤ code := by
  unfold sizeBefore
  split <;> omega

theorem StartCode.length_of_startsHere {data : Bytes} (h : startsHere data) : 3 ≤ data.length := by
  unfold startsHere at h
  split at h
  · simp
  · contradiction

theorem StartCode.search_add_three_le {data : Bytes} {start index : Nat}
    (h : search data start = some index) : index + 3 ≤ start + data.length := by
  fun_induction search data start with
  | case1 | case2 | case3 | case4 | case7 =>
      rename_i hHere
      have := length_of_startsHere hHere
      simp only [Option.some.injEq, List.length_cons] at h this ⊢
      omega
  | case5 _ _ _ _ _ _ _ _ _ _ _ ih | case6 _ _ _ _ _ _ _ ih =>
      have := ih h
      simp only [List.length_cons]
      omega
  | case8 => cases h

/-- The units behind start codes are laid one behind the other, within the data. -/
theorem laid_unitsAfterCode (offset : Nat) (data : Bytes) :
    Laid offset (offset + data.length) (unitsAfterCode offset data).extents := by
  fun_induction unitsAfterCode offset data with
  | case1 offset => exact .nil _ _
  | case2 offset header rest _ =>
      exact .cons (Nat.le_refl _) (Nat.succ_pos _) (Nat.le_refl _) (Nat.le_refl _) (.nil _ _)
  | case3 => exact .nil _ _
  | case4 offset header rest code hCode size hSize _ ih =>
      have hBefore : size ≤ code := sizeBefore_le _ _
      have hWithin : code + 3 ≤ 0 + (header :: rest).length :=
        StartCode.search_add_three_le hCode
      have hStop : offset + code + 3 + ((header :: rest).drop (code + 3)).length
          = offset + (header :: rest).length := by
        rw [List.length_drop]
        omega
      rw [hStop] at ih
      refine .cons (Nat.le_refl _) (Nat.pos_of_ne_zero hSize) ?_ ?_ ih
      · show offset + size ≤ offset + code + 3
        omega
      · omega

/-- The units behind length fields are laid one behind the other, within the data. -/
theorem laid_unitsByLength (size : LengthSize) (offset : Nat) (data : Bytes) :
    Laid offset (offset + data.length) (unitsByLength size offset data).extents := by
  fun_induction unitsByLength size offset data with
  | case1 | case2 => exact .nil _ _
  | case3 offset data hRoom length body hLength ih =>
      have hRoom : size.bytes + 1 ≤ data.length := by
        simpa [isShorter_iff] using hRoom
      have hBody : body.length = data.length - size.bytes := List.length_drop
      have hLength : 0 < length ∧ length ≤ body.length := by
        simp only [not_or, isShorter_iff] at hLength
        omega
      have hStop : offset + size.bytes + length + (body.drop length).length
          = offset + data.length := by
        rw [List.length_drop]
        omega
      rw [hStop] at ih
      have hMiddle : offset + size.bytes + length ≤ offset + data.length := by omega
      exact .cons (Nat.le_add_right _ _) hLength.1 (Nat.le_refl _) hMiddle ih

/-- The units of a packet lie within it and do not share bytes. -/
theorem laid_layout (framing : Framing) (data : Bytes) :
    Laid 0 data.length (layout framing data).extents := by
  unfold layout
  split
  case h_1 =>
    split
    case h_1 => exact .nil _ _
    case h_2 code hCode =>
      have hWithin : code + 3 ≤ 0 + data.length := StartCode.search_add_three_le hCode
      have hLaid := laid_unitsAfterCode (code + 3) (data.drop (code + 3))
      rw [List.length_drop, Nat.add_sub_cancel' (by omega)] at hLaid
      exact ⟨fun extent h => ⟨Nat.zero_le _, (hLaid.within extent h).2⟩, hLaid.apart⟩
  case h_2 size => simpa using laid_unitsByLength size 0 data

/-- Units are reported in their order; some are left out. -/
theorem exists_sublist_of_select {room : Nat} {extents : List Extent} {fault : Option Fault}
    {scan : Scan} (h : select room extents fault = .ok scan) :
    ∃ kept : List Extent, kept.Sublist extents ∧ scan.spans = kept.map .ofExtent := by
  fun_induction select room extents fault generalizing scan with
  | case1 | case3 =>
      cases h
      exact ⟨[], List.nil_sublist _, rfl⟩
  | case2 => cases h
  | case4 room extent extents fault _ ih =>
      obtain ⟨kept, hKept, hSpans⟩ := ih h
      exact ⟨kept, hKept.cons _, hSpans⟩
  | case5 room extent extents fault _ ih =>
      cases hRest : select room extents fault with
      | error => rw [hRest] at h; cases h
      | ok rest =>
          rw [hRest] at h
          cases h
          obtain ⟨kept, hKept, hSpans⟩ := ih hRest
          exact ⟨extent :: kept, hKept.cons_cons _, by rw [hSpans, List.map_cons]⟩

/-- A unit with its header byte lies within the data. -/
def Span.Within (data : Bytes) (span : Span) : Prop :=
  0 < span.size ∧ span.payloadEnd ≤ data.length

/-- A packet is made up of what goes before a payload, the payload, and what comes behind it. -/
theorem Span.take_payload_drop {data : Bytes} {span : Span} (hSpan : span.Within data) :
    data.take span.payloadStart ++ span.payload data ++ data.drop span.payloadEnd = data := by
  have hEnd : span.payloadEnd = span.payloadStart + (span.size - 1) := by
    have := hSpan.1
    rw [Span.payloadEnd, Span.payloadStart]
    omega
  rw [hEnd, Span.payload, List.append_assoc, ← List.drop_drop, List.take_append_drop,
    List.take_append_drop]

/-- The units that are reported for a packet lie within it and do not share bytes. -/
theorem scan_laid {framing : Framing} {data : Bytes} {result : Scan}
    (h : scan framing data = .ok result) :
    (∀ span ∈ result.spans, span.Within data) ∧
      result.spans.Pairwise fun first later => first.payloadEnd ≤ later.offset := by
  have hLaid := laid_layout framing data
  obtain ⟨kept, hKept, hSpans⟩ := exists_sublist_of_select h
  rw [hSpans]
  constructor
  · intro span hSpan
    obtain ⟨extent, hExtent, rfl⟩ := List.mem_map.mp hSpan
    exact (hLaid.within extent (hKept.subset hExtent)).2
  · exact (hLaid.apart.sublist hKept).map _ fun _ _ hApart => hApart

end Cadence.Nal
