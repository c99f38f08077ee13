import ConicProgram.Proofs.Lists
import ConicProgram.Proofs.Problem.Valid

namespace ConicProgram

namespace SparseMatrix

variable {α : Type} {a : SparseMatrix α}

structure WellFormed (a : SparseMatrix α) : Prop where
  values     : a.values.length = a.rowIndices.length
  starts     : a.starts.length = a.cols + 1
  first      : a.starts[0]? = some 0
  rising     : a.starts.Pairwise (· ≤ ·)
  last       : a.starts[a.cols]? = some a.rowIndices.length
  -- Neighbours in a column.
  increasing : ∀ j first stop, a.starts[j]? = some first → a.starts[j + 1]? = some stop →
    ∀ k r s, first ≤ k → k + 1 < stop → a.rowIndices[k]? = some r → a.rowIndices[k + 1]? = some s →
      r < s
  below      : ∀ r ∈ a.rowIndices, r < a.rows

-- Where the start array has an entry for the column and one behind it.
theorem consecutive_columnRows_iff {j first stop : Nat} (hf : a.starts[j]? = some first)
    (hs : a.starts[j + 1]? = some stop) :
    Starts.consecutive (· < ·) (a.columnRows j) ↔ ∀ k r s, first ≤ k → k + 1 < stop →
      a.rowIndices[k]? = some r → a.rowIndices[k + 1]? = some s → r < s := by
  have hget (i : Nat) : (a.columnRows j)[i]? =
      if first + i < stop then a.rowIndices[first + i]? else none := by
    rw [columnRows, List.getD_eq_getElem?_getD, List.getD_eq_getElem?_getD, hf, hs,
      Option.getD_some, Option.getD_some, List.getElem?_take, List.getElem?_drop]
    grind
  simp only [consecutive_iff, hget, Option.ite_none_right_eq_some, decide_eq_true_eq]
  constructor
  case mp =>
    intro h k r s hk hlt hr hs
    obtain ⟨i, rfl⟩ := Nat.exists_eq_add_of_le hk
    exact h i r s ⟨by omega, hr⟩ ⟨by omega, hs⟩
  case mpr =>
    rintro h i r s ⟨_, hr⟩ ⟨hi, hs⟩
    exact h (first + i) r s (by omega) (by omega) hr hs

-- The columns are those that have a start and an end.
theorem consecutive_columns_iff (hs : a.starts.length = a.cols + 1) :
    ((List.range a.cols).all fun j => Starts.consecutive (· < ·) (a.columnRows j)) ↔
      ∀ j first stop, a.starts[j]? = some first → a.starts[j + 1]? = some stop →
        ∀ k r s, first ≤ k → k + 1 < stop → a.rowIndices[k]? = some r →
          a.rowIndices[k + 1]? = some s → r < s := by
  simp only [List.all_eq_true, List.mem_range]
  constructor
  case mp =>
    intro h j first stop hf hst
    obtain ⟨hj, _⟩ := List.getElem?_eq_some_iff.mp hst
    exact (consecutive_columnRows_iff hf hst).mp (h j (by omega))
  case mpr =>
    intro h j hj
    have hf := List.getElem?_eq_getElem (show j < a.starts.length by omega)
    have hst := List.getElem?_eq_getElem (show j + 1 < a.starts.length by omega)
    exact (consecutive_columnRows_iff hf hst).mpr (h j _ _ hf hst)

theorem checkFormat_eq_ok_iff : a.checkFormat = .ok () ↔ a.WellFormed := by
  simp only [checkFormat, ite_error_eq_ok_iff, not_not, not_or, Bool.not_eq_true,
    Bool.not_eq_false', and_true]
  constructor
  case mp =>
    rintro ⟨hv, ⟨hs, hl⟩, ⟨hz, hm⟩, hr, hb⟩
    exact ⟨hv.symm, hs, hz, consecutive_le_iff.mp hm, hl, (consecutive_columns_iff hs).mp hr,
      by simpa using hb⟩
  case mpr =>
    rintro ⟨hv, hs, hz, hm, hl, hr, hb⟩
    exact ⟨hv.symm, ⟨hs, hl⟩, ⟨hz, consecutive_le_iff.mpr hm⟩, (consecutive_columns_iff hs).mpr hr,
      by simpa using hb⟩

-- The row indices of the column are cut out and compared.
def columnRises? (a : SparseMatrix α) (j : Nat) : Option Bool := do
  return Starts.consecutive (· < ·) (← (← a.columnSpan? j).slice? a.rowIndices)

-- The check of the format with each place looked up where it is read. Once a column is out of order,
-- no other one is cut out.
def checkFormat? (a : SparseMatrix α) : Option (Except FormatError Unit) := do
  if a.rowIndices.length ≠ a.values.length then
    return .error .incompatible
  else if a.starts.isEmpty ∨ a.starts.length - 1 ≠ a.cols then
    return .error .incompatible
  else if (← a.starts[a.cols]?) ≠ a.rowIndices.length then
    return .error .incompatible
  else if (← a.starts[0]?) ≠ 0 ∨ !Starts.consecutive (· ≤ ·) a.starts then
    return .error .badStarts
  else if !(← (List.range a.cols).allM a.columnRises?) then
    return .error .badRow
  else if !a.rowIndices.all (· < a.rows) then
    return .error .badRow
  else
    return .ok ()

-- Once the start array has been looked at, each column runs forwards and ends inside of the entries.
theorem columnRises?_eq (hs : a.starts.length = a.cols + 1)
    (hl : a.starts[a.cols]? = some a.rowIndices.length)
    (hm : Starts.consecutive (· ≤ ·) a.starts) {j : Nat} (hj : j < a.cols) :
    a.columnRises? j = some (Starts.consecutive (· < ·) (a.columnRows j)) := by
  have hf := List.getElem?_eq_getElem (show j < a.starts.length by omega)
  have hst := List.getElem?_eq_getElem (show j + 1 < a.starts.length by omega)
  have hp := List.pairwise_iff_getElem.mp (consecutive_le_iff.mp hm)
  have hle : a.starts[j] ≤ a.starts[j + 1] := hp j (j + 1) (by omega) (by omega) (by omega)
  have hstop : a.starts[j + 1] ≤ a.rowIndices.length := by
    have ⟨hc, hl⟩ := List.getElem?_eq_some_iff.mp hl
    obtain he | hlt := Nat.eq_or_lt_of_le (show j + 1 ≤ a.cols by omega)
    · simp [he, hl]
    · exact (hp (j + 1) a.cols (by omega) (by omega) hlt).trans hl.le
  have hslice : (Span.mk a.starts[j] a.starts[j + 1]).slice? a.rowIndices =
      some (a.columnRows j) := by
    rw [Span.slice?_of_le hle hstop, columnRows, List.getD_eq_getElem?_getD,
      List.getD_eq_getElem?_getD, hf, hst]
    rfl
  simp only [columnRises?, columnSpan?, hf, hst, hslice, Option.bind_eq_bind, Option.bind_some,
    Option.pure_def]

-- There is nothing to take one from if the start array is empty.
theorem length_starts_ne_iff :
    (a.starts.isEmpty ∨ a.starts.length - 1 ≠ a.cols) ↔ a.starts.length ≠ a.cols + 1 := by
  rw [List.isEmpty_iff_length_eq_zero]
  omega

theorem checkFormat?_eq (a : SparseMatrix α) : a.checkFormat? = some a.checkFormat := by
  unfold checkFormat? checkFormat
  split
  case isTrue => rfl
  case isFalse =>
    by_cases hs : a.starts.length = a.cols + 1
    case neg =>
      rw [if_pos (length_starts_ne_iff.mpr hs), if_pos (.inl hs)]
      rfl
    case pos =>
      rw [if_neg fun h => length_starts_ne_iff.mp h hs]
      have hc := List.getElem?_eq_getElem (show a.cols < a.starts.length by omega)
      have hz := List.getElem?_eq_getElem (show 0 < a.starts.length by omega)
      simp only [hs, hc, hz, Option.pure_def, Option.bind_eq_bind, Option.bind_some, ne_eq,
        not_true_eq_false, false_or, Option.some.injEq]
      split
      case isTrue => rfl
      case isFalse hl =>
        split
        case isTrue => rfl
        case isFalse hm =>
          have hm : Starts.consecutive (· ≤ ·) a.starts := by
            simpa using (not_or.mp hm).2
          have hrise := Lists.allM_eq_some_of_forall fun j hj =>
            columnRises?_eq hs (hc.trans (congrArg some (not_not.mp hl))) hm (List.mem_range.mp hj)
          rw [hrise, Option.bind_some]
          split
          case isTrue => rfl
          case isFalse => split <;> rfl

end SparseMatrix

namespace Problem

variable {α : Type} {p : Problem α}

structure WellFormed (p : Problem α) : Prop where
  matrix    : p.matrix.WellFormed
  objective : p.objective.length = p.matrix.cols
  rhs       : p.rhs.length = p.matrix.rows
  cones     : ∀ size ∈ p.partition.cones, 1 ≤ size
  rows      : p.partition.equalities + p.partition.inequalities + p.partition.cones.sum =
    p.matrix.rows
  booleans  : ∀ j ∈ p.booleans, j < p.matrix.cols
  integers  : ∀ j ∈ p.integers, j < p.matrix.cols

theorem wellFormed_iff_valid : p.WellFormed ↔ p.Valid := by
  have hr : p.partition.totalRows =
      p.partition.equalities + p.partition.inequalities + p.partition.cones.sum := by
    rw [Partition.totalRows_eq, Partition.linearRows]
  constructor
  case mp =>
    intro ⟨hm, ho, hb, hc, hs, hbool, hint⟩
    exact ⟨SparseMatrix.checkFormat_eq_ok_iff.mpr hm, ho, hb, hc, hr.trans hs, hbool, hint⟩
  case mpr =>
    intro ⟨hm, ho, hb, hc, hs, hbool, hint⟩
    exact ⟨SparseMatrix.checkFormat_eq_ok_iff.mp hm, ho, hb, hc, hr.symm.trans hs, hbool, hint⟩

theorem validate_of_valid (h : p.Valid) : p.validate = .ok () := by
  have hc : p.partition.cones.findIdx? (· = 0) = none := by
    rw [List.findIdx?_eq_none_iff]
    exact fun size hm => by simpa using (h.cones size hm).ne'
  have hs : p.strayIndex? = none := by
    simpa [strayIndex?] using ⟨h.booleans, h.integers⟩
  rw [validate, h.format]
  simp only [hc, hs, h.objective, h.rhs, h.rows, ne_eq, not_true_eq_false, if_false]

theorem validate_eq_ok_iff : p.validate = .ok () ↔ p.WellFormed :=
  ⟨fun h => wellFormed_iff_valid.mpr (valid_of_validate h),
    fun h => validate_of_valid (wellFormed_iff_valid.mp h)⟩

end Problem
end ConicProgram
