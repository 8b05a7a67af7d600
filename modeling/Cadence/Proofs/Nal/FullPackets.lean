import Cadence.Proofs.Nal.Blocks
import Cadence.Proofs.Nal.Rescan

/-!
Packets with more units than are reported. What follows the last unit that is reported is left out, with one
exception: the place of the unit behind it is looked for before it is left out, so that the packet is refused
where that one is damaged (`scan_append_of_full`). Nothing behind it matters.
-/

namespace Cadence.Nal

/-- A unit that is reported, and that start codes can tell apart from others. -/
structure Plain (unit : Bytes) : Prop where
  ne_nil : unit ≠ []
  valid : ¬ isForbidden (unit.headD 0)
  no_code : StartCode.occurs unit = false
  last : unit.getLast? ≠ some 0

/-- Units behind start codes. -/
def StartCode.frame (coded : List (Form × Bytes)) : Bytes :=
  coded.flatMap fun pair => pair.1.bytes ++ pair.2

/-- A packet with as many units as are reported, and nothing else. -/
inductive Full : Framing → Bytes → Prop
  | annexB {coded : List (StartCode.Form × Bytes)} (count : coded.length = 128)
      (plain : ∀ pair ∈ coded, Plain pair.2) : Full .annexB (StartCode.frame coded)
  | lengthPrefixed {size : LengthSize} {blocks : List (Block size)} (count : blocks.length = 128)
      (valid : ∀ block ∈ blocks, ¬ isForbidden (block.unit.headD 0)) :
      Full (.lengthPrefixed size) (blocks.flatMap Block.bytes)

/-- Data that ends the units in front of it. Behind length fields all data does. -/
def Follows : Framing → Bytes → Prop
  | .annexB, tail => StartCode.Form.short.bytes <+: tail
  | .lengthPrefixed _, _ => True

/-- The first unit of what follows is damaged: no unit stands between two start codes, or a length field says
nothing or too much. -/
def Damaged : Framing → Bytes → Prop
  | .annexB, tail => ∃ form : StartCode.Form, form.bytes <+: tail.drop 3
  | .lengthPrefixed size, tail => size.bytes < tail.length ∧
      (bigEndian (tail.take size.bytes) = 0 ∨
        tail.length - size.bytes < bigEndian (tail.take size.bytes))

/-- The search stops before it has located a unit. -/
def Layout.Stops (layout : Layout) : Prop :=
  layout.extents = [] ∧ layout.fault.isSome

theorem not_stops_done : ¬ Layout.done.Stops := by
  rintro ⟨_, ⟨⟩⟩

theorem not_stops_cons (extent : Extent) (layout : Layout) : ¬ (layout.cons extent).Stops := by
  rintro ⟨⟨⟩, _⟩

section StartCodes

open StartCode (Form frame)

variable {coded : List (Form × Bytes)} {unit tail : Bytes}

/-- The units behind start codes, the first of which has the given offset. -/
def frameExtents : (offset : Nat) → List (Form × Bytes) → List Extent
  | _, [] => []
  | offset, (form, unit) :: coded =>
    ⟨unit.headD 0, offset + form.bytes.length, unit.length⟩ ::
      frameExtents (offset + form.bytes.length + unit.length) coded

theorem frame_cons (form : Form) (unit : Bytes) (coded : List (Form × Bytes)) :
    frame ((form, unit) :: coded) = form.bytes ++ (unit ++ frame coded) := by
  rw [frame, List.flatMap_cons, List.append_assoc, frame]

theorem length_frameExtents (offset : Nat) (coded : List (Form × Bytes)) :
    (frameExtents offset coded).length = coded.length := by
  induction coded generalizing offset with
  | nil => rfl
  | cons pair coded ih => rw [frameExtents, List.length_cons, List.length_cons, ih]

theorem valid_frameExtents (offset : Nat) (h : ∀ pair ∈ coded, Plain pair.2) :
    ∀ extent ∈ frameExtents offset coded, ¬ isForbidden extent.header := by
  induction coded generalizing offset with
  | nil => simp [frameExtents]
  | cons pair coded ih =>
      obtain ⟨hPair, hCoded⟩ := List.forall_mem_cons.mp h
      exact List.forall_mem_cons.mpr ⟨hPair.valid, ih _ hCoded⟩

/-- Behind a unit and further ones, the search goes on behind the next start code, if there is one. -/
theorem unitsAfterCode_frame (hUnit : Plain unit) (hCoded : ∀ pair ∈ coded, Plain pair.2)
    (hTail : tail = [] ∨ Form.short.bytes <+: tail) (offset : Nat) :
    unitsAfterCode offset (unit ++ (frame coded ++ tail))
      = (unitsAfterCode (offset + (unit.length + (frame coded).length) + 3) (tail.drop 3)).behind
          (⟨unit.headD 0, offset, unit.length⟩ :: frameExtents (offset + unit.length) coded) := by
  induction coded generalizing unit offset with
  | nil =>
      rcases hTail with rfl | ⟨rest, rfl⟩
      · have hNone := (StartCode.find?_eq_none_iff unit).mpr hUnit.no_code
        have hEmpty : frame [] = [] := rfl
        rw [hEmpty, List.append_nil, List.append_nil, unitsAfterCode_of_none hUnit.ne_nil offset hNone,
          List.drop_nil, unitsAfterCode]
        rfl
      · exact unitsAfterCode_form hUnit.ne_nil hUnit.no_code hUnit.last .short offset rest
  | cons pair coded ih =>
      obtain ⟨form, next⟩ := pair
      obtain ⟨hNext, hRest⟩ := List.forall_mem_cons.mp hCoded
      have hStart : offset + (unit.length + (frame ((form, next) :: coded)).length) + 3
          = offset + (unit.length + form.bytes.length) + (next.length + (frame coded).length) + 3 := by
        rw [frame_cons, List.length_append, List.length_append]
        omega
      rw [hStart, frame_cons, List.append_assoc, List.append_assoc,
        unitsAfterCode_form hUnit.ne_nil hUnit.no_code hUnit.last, ih hNext hRest, frameExtents,
        ← Nat.add_assoc, ← Nat.add_assoc]
      rfl

/-- Units framed by start codes are found one behind the other, and the search goes on behind the
next start code. -/
theorem layout_frame (hCoded : ∀ pair ∈ coded, Plain pair.2) (hSome : coded ≠ [])
    (hTail : tail = [] ∨ Form.short.bytes <+: tail) :
    layout .annexB (frame coded ++ tail)
      = (unitsAfterCode ((frame coded).length + 3) (tail.drop 3)).behind (frameExtents 0 coded) := by
  obtain ⟨⟨form, unit⟩, coded, rfl⟩ := List.exists_cons_of_ne_nil hSome
  obtain ⟨hUnit, hRest⟩ := List.forall_mem_cons.mp hCoded
  have hCode : StartCode.find? (frame ((form, unit) :: coded) ++ tail) = some (form.zeros - 2) := by
    rw [StartCode.find?_eq_bytewise, frame_cons, List.append_assoc, form.bytes_append,
      StartCode.bytewise_zeros, Nat.zero_add]
  have hBehind : (frame ((form, unit) :: coded) ++ tail).drop (form.zeros - 2 + 3)
      = unit ++ (frame coded ++ tail) := by
    rw [frame_cons, List.append_assoc, ← form.length_bytes, List.drop_left, List.append_assoc]
  rw [layout, hCode]
  dsimp only
  rw [hBehind, unitsAfterCode_frame hUnit hRest hTail, ← form.length_bytes, frame_cons,
    List.length_append, List.length_append, frameExtents, Nat.zero_add]

/-- Nothing lies in front of a start code only if the data begins with it, or with a zero byte and it. -/
theorem exists_prefix_of_empty {data : Bytes} {code : Nat} (hCode : StartCode.find? data = some code)
    (hSize : sizeBefore data code = 0) : ∃ form : Form, form.bytes <+: data := by
  obtain ⟨hAt, _⟩ := (StartCode.find?_eq_some_iff data code).mp hCode
  rcases sizeBefore_eq data code with ⟨hWhole, _⟩ | ⟨hSome, hShort, hZero⟩
  · obtain rfl : code = 0 := hWhole.symm.trans hSize
    exact ⟨.short, (StartCode.startsHere_iff_short data).mp hAt⟩
  · obtain rfl : code = 1 := by omega
    cases data with
    | nil => cases hZero
    | cons byte rest =>
        obtain rfl : byte = 0 := Option.some.inj hZero
        obtain ⟨back, hBack⟩ := (StartCode.startsHere_iff_short rest).mp hAt
        exact ⟨.long, back, congrArg (0 :: ·) hBack⟩

/-- The search stops behind a start code where it meets the next one, or a zero byte and the next one. -/
theorem stops_unitsAfterCode_iff (offset : Nat) (data : Bytes) :
    (unitsAfterCode offset data).Stops ↔ ∃ form : Form, form.bytes <+: data := by
  constructor
  · intro h
    by_cases hData : data = []
    · rw [hData, unitsAfterCode] at h
      exact absurd h not_stops_done
    · cases hCode : StartCode.find? data with
      | none =>
          rw [unitsAfterCode_of_none hData offset hCode] at h
          exact absurd h (not_stops_cons _ _)
      | some code =>
          by_cases hSize : sizeBefore data code = 0
          · exact exists_prefix_of_empty hCode hSize
          · rw [unitsAfterCode_of_some hData offset hCode hSize] at h
            exact absurd h (not_stops_cons _ _)
  · rintro ⟨form, rest, rfl⟩
    have hCode : StartCode.find? (form.bytes ++ rest) = some (form.zeros - 2) := by
      rw [StartCode.find?_eq_bytewise, form.bytes_append, StartCode.bytewise_zeros, Nat.zero_add]
    have hSize : sizeBefore (form.bytes ++ rest) (form.zeros - 2) = 0 := by
      cases form <;> rfl
    rw [unitsAfterCode_of_empty offset hCode hSize]
    exact ⟨rfl, rfl⟩

end StartCodes

section LengthFields

variable {size : LengthSize}

/-- Blocks without a forbidden header have units without one. -/
theorem valid_extents {blocks : List (Block size)} (offset : Nat)
    (h : ∀ block ∈ blocks, ¬ isForbidden (block.unit.headD 0)) :
    ∀ extent ∈ Block.extents offset blocks, ¬ isForbidden extent.header := by
  induction blocks generalizing offset with
  | nil => simp [Block.extents]
  | cons block blocks ih =>
      obtain ⟨hBlock, hBlocks⟩ := List.forall_mem_cons.mp h
      exact List.forall_mem_cons.mpr ⟨hBlock, ih _ hBlocks⟩

/-- The search stops where there is a length field and no block begins with it. -/
theorem stops_unitsByLength_iff (offset : Nat) (data : Bytes) :
    (unitsByLength size offset data).Stops ↔ Damaged (.lengthPrefixed size) data := by
  by_cases hRoom : size.bytes < data.length
  · by_cases hWrong : bigEndian (data.take size.bytes) = 0 ∨
        data.length - size.bytes < bigEndian (data.take size.bytes)
    · rw [unitsByLength_of_wrong hRoom hWrong offset]
      exact iff_of_true ⟨rfl, rfl⟩ ⟨hRoom, hWrong⟩
    · obtain ⟨hSome, hFits⟩ := not_or.mp hWrong
      obtain ⟨block, rest, rfl⟩ := (Block.exists_prefix_iff data).mpr ⟨hRoom, hSome, Nat.not_lt.mp hFits⟩
      rw [unitsByLength_block]
      exact iff_of_false (not_stops_cons _ _) fun hDamaged => hWrong hDamaged.2
  · rw [unitsByLength_of_le (Nat.not_lt.mp hRoom)]
    exact iff_of_false not_stops_done fun hDamaged => hRoom hDamaged.1

end LengthFields

section Scan

variable {framing : Framing} {data tail : Bytes}

/-- A full packet in front of other data is located as it is alone, and the search goes on behind it. -/
theorem exists_layout_of_full (hData : Full framing data) (hTail : Follows framing tail) :
    ∃ (extents : List Extent) (more : Layout), extents.length = maxUnits ∧
      (∀ extent ∈ extents, ¬ isForbidden extent.header) ∧
      layout framing data = ⟨extents, none⟩ ∧ layout framing (data ++ tail) = more.behind extents ∧
      (more.Stops ↔ Damaged framing tail) := by
  cases hData with
  | @annexB coded hCount hPlain =>
      have hSome : coded ≠ [] := List.ne_nil_of_length_pos (by omega)
      have hAlone := layout_frame hPlain hSome (.inl rfl)
      rw [List.append_nil, List.drop_nil, unitsAfterCode] at hAlone
      refine ⟨frameExtents 0 coded, _, ?_, valid_frameExtents 0 hPlain, ?_,
        layout_frame hPlain hSome (.inr hTail), stops_unitsAfterCode_iff _ _⟩
      · rw [length_frameExtents]
        exact hCount
      · rw [hAlone]
        exact congrArg (Layout.mk · none) (List.append_nil _)
  | @lengthPrefixed size blocks hCount hValid =>
      have hAlone : Splits (blocks.flatMap Block.bytes) blocks [] :=
        ⟨(List.append_nil _).symm, Nat.zero_le _⟩
      refine ⟨Block.extents 0 blocks, _, ?_, valid_extents 0 hValid, layout_of_splits hAlone,
        unitsByLength_blocks blocks 0 tail, stops_unitsByLength_iff _ _⟩
      rw [length_extents]
      exact hCount

section Behind

variable {extents : List Extent} {more : Layout}

/-- As many units as there may be, and no fault behind them, are all reported. -/
theorem scan_of_layout (hCount : extents.length = maxUnits)
    (hValid : ∀ extent ∈ extents, ¬ isForbidden extent.header)
    (h : layout framing data = ⟨extents, none⟩) :
    scan framing data = .ok ⟨extents.map .ofExtent, false⟩ := by
  rw [scan, h, ← reportable_of_valid hValid]
  exact select_of_length_le (Nat.le_of_eq hCount) none

/-- Where the search stops behind as many units as are reported, the fault counts. -/
theorem exists_scan_of_stops (hCount : extents.length = maxUnits)
    (h : layout framing data = more.behind extents) (hStops : more.Stops) :
    ∃ fault, scan framing data = .error fault := by
  obtain ⟨hNone, hFault⟩ := hStops
  obtain ⟨fault, hFault⟩ := Option.isSome_iff_exists.mp hFault
  refine ⟨fault, ?_⟩
  rw [scan, h]
  show select maxUnits (extents ++ more.extents) more.fault = .error fault
  rw [hNone, List.append_nil, hFault]
  exact select_of_length_le (Nat.le_of_eq hCount) (some fault)

/-- Where it does not stop there, what comes behind them makes no difference. -/
theorem scan_of_not_stops (hCount : extents.length = maxUnits)
    (hValid : ∀ extent ∈ extents, ¬ isForbidden extent.header)
    (h : layout framing data = more.behind extents) (hStops : ¬ more.Stops) :
    (scan framing data).map Scan.spans = .ok (extents.map .ofExtent) := by
  rw [scan, h]
  show (select maxUnits (extents ++ more.extents) more.fault).map Scan.spans = _
  rw [select_of_full hCount hValid, reportable_of_valid hValid]
  obtain ⟨_ | ⟨extent, rest⟩, fault⟩ := more
  · cases fault with
    | none => simp [select, Except.map]
    | some fault => exact absurd ⟨rfl, rfl⟩ hStops
  · cases fault <;> simp [select, Except.map]

end Behind

/-- Behind a full packet all that follows is left out, if the first unit of it is in order or there is none.
Whatever comes behind that unit does not count. If it is damaged, the packet is refused, although that unit
would not be reported. -/
theorem scan_append_of_full (hData : Full framing data) (hTail : Follows framing tail) :
    ∃ spans, spans.length = 128 ∧ scan framing data = .ok ⟨spans, false⟩ ∧
      (¬ Damaged framing tail → (scan framing (data ++ tail)).map Scan.spans = .ok spans) ∧
      (Damaged framing tail →
        ∃ fault, scan framing (data ++ tail) = .error fault ∧ fault.category = .invalidData) := by
  obtain ⟨extents, more, hCount, hValid, hAlone, hLayout, hStops⟩ := exists_layout_of_full hData hTail
  refine ⟨extents.map .ofExtent, List.length_map _ |>.trans hCount, scan_of_layout hCount hValid hAlone,
    fun hSound => ?_, fun hDamaged => ?_⟩
  · exact scan_of_not_stops hCount hValid hLayout (hStops.not.mpr hSound)
  · obtain ⟨fault, hFault⟩ := exists_scan_of_stops hCount hLayout (hStops.mpr hDamaged)
    exact ⟨fault, hFault, category_of_scan hFault⟩

/-- As many slices of one byte as are reported, behind start codes. -/
def sampleCoded : List (StartCode.Form × Bytes) :=
  List.replicate 128 (.short, [0x41])

/-- The same slices behind length fields of one byte. -/
def sampleCounted : List (Block ⟨1, by decide, by decide⟩) :=
  List.replicate 128 { unit := [0x41] }

/-- Behind start codes the slices make a full packet. -/
theorem full_sampleCoded : Full .annexB (StartCode.frame sampleCoded) := by
  refine .annexB List.length_replicate fun pair hPair => ?_
  rw [List.eq_of_mem_replicate hPair]
  exact ⟨by decide, by decide, by decide, by decide⟩

/-- Behind length fields the slices make a full packet. -/
theorem full_sampleCounted :
    Full (.lengthPrefixed ⟨1, by decide, by decide⟩) (sampleCounted.flatMap Block.bytes) := by
  refine .lengthPrefixed List.length_replicate fun block hBlock => ?_
  rw [List.eq_of_mem_replicate hBlock]
  decide

/-- Behind the first further unit, the packets go on with two start codes in a row and with a length of
zero. -/
theorem scan_append_of_full_sample :
    (Follows .annexB [0, 0, 1, 0x41, 0, 0, 1, 0, 0, 1] ∧
      ¬ Damaged .annexB [0, 0, 1, 0x41, 0, 0, 1, 0, 0, 1] ∧
      ∃ spans, spans.length = 128 ∧
        scan .annexB (StartCode.frame sampleCoded) = .ok ⟨spans, false⟩ ∧
        (scan .annexB (StartCode.frame sampleCoded ++ [0, 0, 1, 0x41, 0, 0, 1, 0, 0, 1])).map Scan.spans
          = .ok spans) ∧
    (¬ Damaged (.lengthPrefixed ⟨1, by decide, by decide⟩) [1, 0x41, 0, 0x41] ∧
      ∃ spans, spans.length = 128 ∧
        scan (.lengthPrefixed ⟨1, by decide, by decide⟩) (sampleCounted.flatMap Block.bytes)
          = .ok ⟨spans, false⟩ ∧
        (scan (.lengthPrefixed ⟨1, by decide, by decide⟩)
          (sampleCounted.flatMap Block.bytes ++ [1, 0x41, 0, 0x41])).map Scan.spans = .ok spans) := by
  have hTail : Follows .annexB [0, 0, 1, 0x41, 0, 0, 1, 0, 0, 1] :=
    ⟨[0x41, 0, 0, 1, 0, 0, 1], rfl⟩
  have hSound : ¬ Damaged .annexB [0, 0, 1, 0x41, 0, 0, 1, 0, 0, 1] := by
    rintro ⟨form, hForm⟩
    cases form <;> exact absurd hForm (by decide)
  have hFits : ¬ Damaged (.lengthPrefixed ⟨1, by decide, by decide⟩) [1, 0x41, 0, 0x41] := by
    rintro ⟨_, hWrong⟩
    exact absurd hWrong (by decide)
  obtain ⟨spans, hCount, hScan, hSame, _⟩ := scan_append_of_full full_sampleCoded hTail
  obtain ⟨others, hOthers, hCounted, hAgain, _⟩ := @scan_append_of_full _ _ [1, 0x41, 0, 0x41]
    full_sampleCounted trivial
  exact ⟨⟨hTail, hSound, spans, hCount, hScan, hSame hSound⟩, hFits, others, hOthers, hCounted,
    hAgain hFits⟩

/-- What follows the last unit that is reported is not always left out: with two start codes in a row there,
or with a length of zero, the packet is refused. -/
theorem scan_sampleCoded_refused :
    (Full .annexB (StartCode.frame sampleCoded) ∧ Follows .annexB [0, 0, 1, 0, 0, 1, 0x41] ∧
      (scan .annexB (StartCode.frame sampleCoded)).map (·.spans.length) = .ok 128 ∧
      ∃ fault, scan .annexB (StartCode.frame sampleCoded ++ [0, 0, 1, 0, 0, 1, 0x41]) = .error fault) ∧
    (Full (.lengthPrefixed ⟨1, by decide, by decide⟩) (sampleCounted.flatMap Block.bytes) ∧
      (scan (.lengthPrefixed ⟨1, by decide, by decide⟩)
        (sampleCounted.flatMap Block.bytes)).map (·.spans.length) = .ok 128 ∧
      ∃ fault, scan (.lengthPrefixed ⟨1, by decide, by decide⟩)
        (sampleCounted.flatMap Block.bytes ++ [0, 0x41]) = .error fault) := by
  have hTail : Follows .annexB [0, 0, 1, 0, 0, 1, 0x41] := ⟨[0, 0, 1, 0x41], rfl⟩
  have hEmpty : Damaged .annexB [0, 0, 1, 0, 0, 1, 0x41] := ⟨.short, [0x41], rfl⟩
  have hZero : Damaged (.lengthPrefixed ⟨1, by decide, by decide⟩) [0, 0x41] := ⟨by decide, by decide⟩
  obtain ⟨extents, more, hCount, hValid, hAlone, hLayout, hStops⟩ :=
    exists_layout_of_full full_sampleCoded hTail
  obtain ⟨others, rest, hOthers, hAll, hCounted, hBehind, hEnds⟩ :=
    @exists_layout_of_full _ _ [0, 0x41] full_sampleCounted trivial
  refine ⟨⟨full_sampleCoded, hTail, ?_, exists_scan_of_stops hCount hLayout (hStops.mpr hEmpty)⟩,
    full_sampleCounted, ?_, exists_scan_of_stops hOthers hBehind (hEnds.mpr hZero)⟩
  · rw [scan_of_layout hCount hValid hAlone]
    exact congrArg Except.ok (List.length_map _ |>.trans hCount)
  · rw [scan_of_layout hOthers hAll hCounted]
    exact congrArg Except.ok (List.length_map _ |>.trans hOthers)

end Scan

end Cadence.Nal
