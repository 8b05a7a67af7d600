import Cadence.Proofs.Nal.Extents
import Cadence.Proofs.Nal.ZeroBytes

/-!
Words with no zero byte hold the beginning of no start code, so that looking at four bytes together
misses none: the search finds what a search from byte to byte finds (`find?_eq_bytewise`).
-/

namespace Cadence.Nal

namespace StartCode

/-- Index of the first start code, looked for at each byte. -/
def bytewise : (data : Bytes) → (index : Nat) → Option Nat
  | [], _ => none
  | byte :: rest, index =>
    if startsHere (byte :: rest) then some index else bytewise rest (index + 1)

@[simp] theorem startsHere_of_ne_zero {byte : UInt8} (h : byte ≠ 0) (rest : Bytes) :
    startsHere (byte :: rest) = false := by
  unfold startsHere
  split
  case h_1 hZero =>
    cases hZero
    exact absurd rfl h
  case h_2 => rfl

theorem startsHere_zero_of_ne_zero {byte : UInt8} (h : byte ≠ 0) (rest : Bytes) :
    startsHere (0 :: byte :: rest) = false := by
  unfold startsHere
  split
  case h_1 hZero =>
    cases hZero
    exact absurd rfl h
  case h_2 => rfl

theorem startsHere_zeros (byte : UInt8) (rest : Bytes) :
    startsHere (0 :: 0 :: byte :: rest) = (byte == 1) := by
  unfold startsHere
  split
  case h_1 hOne =>
    cases hOne
    rfl
  case h_2 hOther =>
    symm
    rw [beq_eq_false_iff_ne]
    rintro rfl
    exact hOther rest rfl

/-- There is no start code in fewer than three bytes. -/
theorem bytewise_of_short {data : Bytes} (h : data.length < 3) (index : Nat) :
    bytewise data index = none := by
  induction data generalizing index with
  | nil => rfl
  | cons byte rest ih =>
      have hShort : startsHere (byte :: rest) = false := by
        unfold startsHere
        split
        case h_1 hCode =>
          rw [hCode] at h
          simp only [List.length_cons] at h
          omega
        case h_2 => rfl
      rw [bytewise, hShort]
      exact ih (Nat.lt_of_succ_lt h) (index + 1)

/-- The search that jumps over bytes finds what one byte by byte finds, by induction over its
jumps. -/
theorem search_eq_bytewise (data : Bytes) (index : Nat) : search data index = bytewise data index := by
  fun_induction search data index with
  | case1 a b c d rest index hZero hHere => simp [bytewise, hHere]
  | case2 a b c d rest index hZero hFirst hHere => simp [bytewise, hFirst, hHere]
  | case3 a b c d rest index hZero hFirst hSecond hHere => simp [bytewise, hFirst, hSecond, hHere]
  | case4 a b c d rest index hZero hFirst hSecond hThird hHere =>
      simp [bytewise, hFirst, hSecond, hThird, hHere]
  | case5 a b c d rest index hZero hFirst hSecond hThird hFourth ih =>
      simp [bytewise, hFirst, hSecond, hThird, hFourth, ih]
  | case6 a b c d rest index hNone ih =>
      -- The whole word is passed over: no byte of it begins a start code.
      obtain ⟨ha, hb, hc, hd⟩ := ne_zero_of_not_hasZeroByte (by simpa using hNone)
      simp [bytewise, ha, hb, hc, hd, ih]
  | case7 tail index hTail hHere =>
      cases tail with
      | nil => contradiction
      | cons byte rest => simp [bytewise, hHere]
  | case8 tail index hTail hHere =>
      cases tail with
      | nil => rfl
      | cons byte rest =>
          rw [bytewise, if_neg hHere, bytewise_of_short]
          rcases rest with _ | ⟨b, _ | ⟨c, _ | ⟨d, rest⟩⟩⟩
          · simp
          · simp
          · simp
          · exact absurd rfl (hTail byte b c d rest)

/-- The first start code is the one that a search byte by byte finds. -/
theorem find?_eq_bytewise (data : Bytes) : find? data = bytewise data 0 :=
  search_eq_bytewise data 0

/-- There is a start code somewhere. -/
def occurs : Bytes → Bool
  | [] => false
  | byte :: rest => startsHere (byte :: rest) || occurs rest

theorem bytewise_eq_none_iff (data : Bytes) (index : Nat) :
    bytewise data index = none ↔ occurs data = false := by
  induction data generalizing index with
  | nil => simp [bytewise, occurs]
  | cons byte rest ih => cases hHere : startsHere (byte :: rest) <;> simp [bytewise, occurs, hHere, ih]

/-- No start code is found exactly if none occurs. -/
theorem find?_eq_none_iff (data : Bytes) : find? data = none ↔ occurs data = false := by
  rw [find?_eq_bytewise, bytewise_eq_none_iff]

theorem find?_startCode (unit : Bytes) : find? (startCode ++ unit) = some 1 := by
  rw [find?_eq_bytewise]
  simp [startCode, bytewise, startsHere]

end StartCode

/-- A first unit with a valid header is the first one to be reported. -/
theorem head?_of_select {room : Nat} {extent : Extent} {extents : List Extent}
    {fault : Option Fault} {result : Scan} (hHeader : ¬ isForbidden extent.header)
    (h : select (room + 1) (extent :: extents) fault = .ok result) :
    result.spans.head? = some (.ofExtent extent) := by
  rw [select, if_neg hHeader] at h
  cases hRest : select room extents fault with
  | error other =>
      rw [hRest] at h
      cases h
  | ok rest =>
      rw [hRest] at h
      cases h
      rfl

/-- Behind a start code the units of the rest are laid out. -/
theorem layout_startCode (unit : Bytes) :
    layout .annexB (startCode ++ unit) = unitsAfterCode startCode.length unit := by
  rw [layout, StartCode.find?_startCode]
  rfl

/-- A unit that follows a start code is found as one unit exactly if no start code occurs in it. -/
theorem scan_startCode_iff {header : UInt8} (hHeader : ¬ isForbidden header) (rest : Bytes) :
    scan .annexB (startCode ++ header :: rest)
        = .ok ⟨[.ofExtent ⟨header, startCode.length, rest.length + 1⟩], false⟩ ↔
      StartCode.occurs (header :: rest) = false := by
  rw [scan, layout_startCode, ← StartCode.find?_eq_none_iff, unitsAfterCode]
  split
  case h_1 hNone =>
    simp only [hNone, iff_true]
    rw [Layout.cons, Layout.done, maxUnits, select, if_neg hHeader, select]
    rfl
  case h_2 code hCode =>
    have hLess := StartCode.find?_lt hCode
    have hSize := sizeBefore_le (header :: rest) code
    simp only [hCode, reduceCtorEq, iff_false]
    intro hScan
    split at hScan
    case isTrue => cases hScan
    case isFalse =>
      -- The first unit ends before the start code.
      have hFirst := head?_of_select hHeader hScan
      simp only [List.head?_cons, Span.ofExtent, Option.some.injEq, Span.mk.injEq, true_and] at hFirst
      rw [List.length_cons] at hLess
      omega

end Cadence.Nal
