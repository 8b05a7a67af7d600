import Cadence.Nal.Scan
import Cadence.Proofs.Outcome

/-!
Which of the units that were located are reported. As long as there is room, those with a clear forbidden bit
are reported and what comes behind them is reached (`select_append`); a fault that is reached says that the
data is damaged (`category_of_scan`).
-/

namespace Cadence.Nal

/-- The places and kinds of the units whose forbidden bit is clear, in order. -/
def reportable (extents : List Extent) : List Span :=
  (extents.filter fun extent => !isForbidden extent.header).map .ofExtent

/-- Units that lie in front of a layout. -/
def Layout.behind (layout : Layout) (extents : List Extent) : Layout :=
  { layout with extents := extents ++ layout.extents }

section Reportable

variable {extent : Extent}

@[simp] theorem reportable_nil : reportable [] = [] := rfl

/-- A unit with a forbidden header is left out. -/
theorem reportable_cons_of_forbidden (h : isForbidden extent.header) (extents : List Extent) :
    reportable (extent :: extents) = reportable extents := by
  rw [reportable, List.filter_cons_of_neg (by simpa using h), reportable]

/-- Any other unit is reported. -/
theorem reportable_cons_of_valid (h : ¬ isForbidden extent.header) (extents : List Extent) :
    reportable (extent :: extents) = .ofExtent extent :: reportable extents := by
  rw [reportable, List.filter_cons_of_pos (by simpa using h), List.map_cons, reportable]

theorem reportable_of_valid {extents : List Extent}
    (h : ∀ extent ∈ extents, ¬ isForbidden extent.header) :
    reportable extents = extents.map .ofExtent := by
  rw [reportable, List.filter_eq_self.mpr]
  simpa using h

end Reportable

section Select

variable {room : Nat} {extents : List Extent}

/-- Units for which there is room do not keep those behind them from being reached. -/
theorem select_append (h : extents.length ≤ room) (more : List Extent) (fault : Option Fault) :
    select room (extents ++ more) fault
      = (select (room - (reportable extents).length) more fault).map
          fun scan => { scan with spans := reportable extents ++ scan.spans } := by
  induction extents generalizing room with
  | nil =>
      show select room more fault = (select room more fault).map id
      cases select room more fault <;> rfl
  | cons extent extents ih =>
      obtain ⟨room, rfl⟩ := Nat.exists_eq_add_of_lt h
      rw [List.length_cons] at h
      rw [List.cons_append, select]
      by_cases hForbidden : isForbidden extent.header
      · rw [if_pos hForbidden, reportable_cons_of_forbidden hForbidden, ih (by omega)]
      · rw [if_neg hForbidden, reportable_cons_of_valid hForbidden, ih (by omega), List.length_cons,
          Nat.add_sub_add_right]
        cases select _ more fault <;> rfl

/-- Where there is room for all units, none is left out, and a fault behind them is reached. -/
theorem select_of_length_le (h : extents.length ≤ room) (fault : Option Fault) :
    select room extents fault
      = match fault with
        | none => .ok ⟨reportable extents, false⟩
        | some fault => .error fault := by
  have hAll := select_append h [] fault
  rw [List.append_nil] at hAll
  rw [hAll]
  cases fault <;> simp [select, Except.map]

/-- Behind as many units as there is room for, a further unit is left out with all that follows it, and a
fault is still reached. -/
theorem select_of_full (h : extents.length = room) (hValid : ∀ extent ∈ extents, ¬ isForbidden extent.header)
    (more : List Extent) (fault : Option Fault) :
    select room (extents ++ more) fault
      = (select 0 more fault).map
          fun scan => { scan with spans := reportable extents ++ scan.spans } := by
  have hAll : (reportable extents).length = room := by
    rw [reportable_of_valid hValid, List.length_map, h]
  rw [select_append (Nat.le_of_eq h), hAll, Nat.sub_self]

theorem fault_of_select {found : Option Fault} {fault : Fault}
    (h : select room extents found = .error fault) : found = some fault := by
  fun_induction select room extents found with
  | case1 | case3 => cases h
  | case2 => cases h; rfl
  | case4 room extent extents found _ ih => exact ih h
  | case5 room extent extents found _ ih =>
      rcases except_bind_eq_error.mp h with h | ⟨_, _, h⟩
      · exact ih h
      · cases h

end Select

section Category

/-- Behind start codes the only fault is one of the data. -/
theorem category_of_unitsAfterCode (offset : Nat) (data : Bytes) :
    ∀ fault ∈ (unitsAfterCode offset data).fault, fault.category = .invalidData := by
  fun_induction unitsAfterCode offset data with
  | case1 | case2 => simp [Layout.cons, Layout.done]
  | case3 => simp [Layout.stopped, Fault.category]
  | case4 => assumption

/-- Behind length fields, too, the only fault is one of the data. -/
theorem category_of_unitsByLength (size : LengthSize) (offset : Nat) (data : Bytes) :
    ∀ fault ∈ (unitsByLength size offset data).fault, fault.category = .invalidData := by
  fun_induction unitsByLength size offset data with
  | case1 => simp [Layout.done]
  | case2 => simp [Layout.stopped, Fault.category]
  | case3 => assumption

/-- A packet that cannot be scanned is reported as damaged, whatever is wrong with it. -/
theorem category_of_scan {framing : Framing} {data : Bytes} {fault : Fault}
    (h : scan framing data = .error fault) : fault.category = .invalidData := by
  have hFault : (layout framing data).fault = some fault := fault_of_select h
  unfold layout at hFault
  split at hFault
  case h_1 =>
    split at hFault
    case h_1 => cases hFault
    case h_2 => exact category_of_unitsAfterCode _ _ fault hFault
  case h_2 => exact category_of_unitsByLength _ _ _ fault hFault

end Category

end Cadence.Nal
