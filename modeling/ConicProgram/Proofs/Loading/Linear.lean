import ConicProgram.Proofs.Loading.Loaded
import ConicProgram.Proofs.Model.Loading
import ConicProgram.Proofs.Model.Writes
import ConicProgram.Proofs.Problem.Valid
import ConicProgram.Proofs.Sparse.Selection

namespace ConicProgram.Problem

variable {α : Type} [Scalar α] {p : Problem α}

section Rows

-- The model of the linear rows alone, with variables that are continuous so far.
def linearModel (p : Problem α) : Model α where
  rows := p.linearRowList
  columns := List.replicate p.variableCount ⟨.free, .continuous⟩
  objective := p.objective
  cones := []

omit [Scalar α] in
theorem Valid.linearRows_le (h : p.Valid) : p.partition.linearRows ≤ p.rowCount :=
  h.rows ▸ p.partition.linearRows_le

omit [Scalar α] in
theorem Valid.slice?_rhs (h : p.Valid) :
    Span.slice? ⟨0, p.partition.linearRows⟩ p.rhs = some (p.rhs.take p.partition.linearRows) := by
  have hl : p.partition.linearRows ≤ p.rhs.length := h.rhs ▸ h.linearRows_le
  rw [Span.slice?_of_le (Nat.zero_le _) hl]
  rfl

def linearSenses (p : Problem α) : List RowSense :=
  List.replicate p.partition.equalities .equal ++ List.replicate p.partition.inequalities .atMost

omit [Scalar α] in
@[simp]
theorem length_linearSenses : p.linearSenses.length = p.partition.linearRows := by
  simp [linearSenses, Partition.linearRows]

omit [Scalar α] in
theorem getElem?_linearSenses (i : Nat) :
    p.linearSenses[i]? = if i < p.partition.linearRows then some (p.sense i) else none := by
  rw [linearSenses, List.getElem?_append, List.length_replicate]
  simp only [List.getElem?_replicate, sense, Partition.linearRows]
  grind

abbrev linearSpan (p : Problem α) : Span :=
  ⟨0, p.partition.linearRows⟩

-- What is left of the columns, of which only the linear rows are kept, makes up these rows.
theorem Valid.linearRowList_eq (h : p.Valid) {cs : List (List (Nat × α))}
    (hm : p.matrix = .ofColumns p.rowCount cs) :
    (p.linearSenses.zip (p.rhs.take p.partition.linearRows)).zipIdx.map (fun e =>
      Row.ofEntries e.1.1 e.1.2 ((SparseMatrix.ofColumns p.linearSpan.length
        (cs.map (·.filterMap p.linearSpan.localize))).row e.2)) = p.linearRowList := by
  refine List.ext_getElem? fun i => ?_
  rw [linearRowList, List.getElem?_map, List.getElem?_map, List.getElem?_zipIdx]
  by_cases hi : i < p.partition.linearRows
  case pos =>
    have hri : i < p.rhs.length := by
      have := h.linearRows_le
      have := h.rhs
      omega
    have hz : (p.linearSenses.zip (p.rhs.take p.partition.linearRows))[i]? =
        some (p.sense i, p.rhs[i]) :=
      List.getElem?_zip_eq_some.mpr
        ⟨by rw [getElem?_linearSenses, if_pos hi], by simp [hi, hri]⟩
    rw [hz, List.getElem?_range hi]
    have hrow : (SparseMatrix.ofColumns p.linearSpan.length
          (cs.map (·.filterMap p.linearSpan.localize))).row i =
        (SparseMatrix.ofColumns p.rowCount cs).row (0 + i) := SparseMatrix.row_localize hi
    simp [row, hm, hrow, hri]
  case neg =>
    have hz : (p.linearSenses.zip (p.rhs.take p.partition.linearRows)).length ≤ i := by
      simp
      omega
    rw [List.getElem?_eq_none hz, List.getElem?_eq_none (by simpa using hi)]
    rfl

-- The linear rows of the matrix with all else that is loaded with them.
def linearLoad (p : Problem α) (linear : SparseMatrix α) : LoadData α where
  senses := p.linearSenses
  rhs := p.rhs.take p.partition.linearRows
  starts := linear.starts
  rowIndices := linear.rowIndices
  values := linear.values
  lower := List.replicate p.variableCount (-Bounds.unlimited)
  upper := List.replicate p.variableCount Bounds.unlimited
  objective := p.objective

-- The start array that is built from the column of each entry is the one that the rows have.
theorem Valid.exists_linearData (h : p.Valid) (hw : p.variableCount ≤ Starts.wordSize) :
    ∃ linear, p.matrix.selectRows? p.linearSpan = some linear ∧ linear.checkFormat = .ok () ∧
      p.linearData = .ok (p.linearLoad linear) := by
  have ⟨linear, hl, hf, _, hc, _⟩ :=
    SparseMatrix.exists_selectRows? (s := p.linearSpan) h.format (Nat.zero_le _) h.linearRows_le
  have ⟨indices, hi, hs⟩ := SparseMatrix.exists_colIndices? hf (hc ▸ hw)
  rw [show linear.cols = p.variableCount from hc] at hs
  refine ⟨linear, hl, hf, ?_⟩
  rw [linearData, hl, h.slice?_rhs]
  simp only [Attempt.ofOption, bind, Except.bind, hi, hs, Attempt.ofExcept, Attempt.mapCause]
  rfl

theorem Valid.linearData_eq (h : p.Valid) (hw : p.variableCount ≤ Starts.wordSize) :
    ∃ d entries, p.linearData = .ok d ∧ Model.ofLoadData d = .ok p.linearModel ∧
      d.starts[p.linearModel.columnCount]? = some entries := by
  obtain ⟨cs, hm, hn, hf⟩ := h.exists_columns
  have hlen := hn ▸ h.objective
  -- The rows that are not linear are left out column by column.
  let span := p.linearSpan
  let linear := cs.map (·.filterMap span.localize)
  have hl : linear.length = cs.length := List.length_map _
  have ⟨_, hsel, _, hd⟩ := h.exists_linearData hw
  rw [hm, SparseMatrix.selectRows?_ofColumns (Nat.zero_le _) h.linearRows_le] at hsel
  cases hsel
  have hfit : SparseMatrix.Columns.Fit p.linearSenses.length linear := by
    rw [length_linearSenses]
    exact hf.localize span
  have hr : (p.rhs.take p.partition.linearRows).length = p.partition.linearRows := by
    rw [List.length_take, h.rhs]
    exact Nat.min_eq_left h.linearRows_le
  refine ⟨_, offset linear linear.length, hd, ?_, ?_⟩
  · rw [linearLoad, Model.ofLoadData_ofColumns hfit (by simp [hr]) (by omega)
      (by simp; omega) (by simp; omega)]
    have hcols : (List.replicate p.variableCount (-Bounds.unlimited : α)).zipWith
        (fun lower upper => (⟨⟨lower, upper⟩, .continuous⟩ : Column α))
        (List.replicate p.variableCount Bounds.unlimited) =
        List.replicate p.variableCount ⟨.free, .continuous⟩ := by
      simp [Bounds.free]
    rw [hcols]
    exact congrArg Except.ok (congrArg (Model.mk · _ _ _) (h.linearRowList_eq hm))
  · have hc : p.linearModel.columnCount = linear.length := by
      simp [Model.columnCount, linearModel]
      omega
    rw [hc]
    exact @SparseMatrix.starts_ofColumns α span.length _ linear le_rfl

end Rows

section Kinds

omit [Scalar α] in
theorem Valid.column_lt (h : p.Valid) {k : Nat × ColumnKind} (hk : k ∈ p.discreteKinds) :
    k.1 < p.variableCount := by
  rcases List.mem_append.mp hk with hk | hk
  · have ⟨j, hj, he⟩ := List.mem_map.mp hk
    exact he ▸ h.booleans j hj
  · have ⟨j, hj, he⟩ := List.mem_map.mp hk
    exact he ▸ h.integers j hj

omit [Scalar α] in
theorem Valid.columnKinds?_eq (h : p.Valid) : p.columnKinds? p.variableCount = some p.kinds := by
  refine (Lists.foldlM_eq_pure (p := fun ks : List ColumnKind => ks.length = p.variableCount)
    List.length_replicate fun k hk ks hl => ?_).1
  have hk : k.1 < ks.length := hl ▸ h.column_lt hk
  exact ⟨if_pos hk, by rw [List.length_set, hl]⟩

theorem foldl_put_kind (ks : List (Nat × ColumnKind)) (kinds : List ColumnKind) {m : Model α}
    (h : m.columns = kinds.map (⟨.free, ·⟩)) :
    (ks.map fun k => Model.Write.kind k.1 k.2).foldl Model.put m = { m with
      columns := (ks.foldl (fun kinds (j, kind) => kinds.set j kind) kinds).map (⟨.free, ·⟩) } := by
  induction ks generalizing kinds m
  case nil => rw [List.foldl_nil, ← h]; rfl
  case cons k ks hi =>
    have hk : (m.put (.kind k.1 k.2)).columns = (kinds.set k.1 k.2).map (⟨.free, ·⟩) := by
      refine List.ext_getElem? fun j => ?_
      simp only [Model.put, h, List.getElem?_modify, List.getElem?_map, List.getElem?_set]
      by_cases hj : k.1 = j
      case pos =>
        subst hj
        by_cases hk : k.1 < kinds.length <;> simp [hk]
      case neg => simp [hj]
    rw [List.map_cons, List.foldl_cons, hi _ hk]
    rfl

theorem Valid.fits_kind (h : p.Valid) {k : Nat × ColumnKind} (hk : k ∈ p.discreteKinds) :
    p.linearModel.Fits (.kind k.1 k.2) := by
  show k.1 < p.linearModel.columns.length
  rw [linearModel, List.length_replicate]
  exact h.column_lt hk

theorem loadedWith_nil (mode : ConeMode) :
    p.loadedWith mode [] = { p.linearModel with columns := p.structuralColumns } := by
  cases mode <;> simp [loadedWith, linearModel]

theorem foldl_put_discreteKinds (p : Problem α) (mode : ConeMode) :
    (p.discreteKinds.map fun k => .kind k.1 k.2).foldl Model.put p.linearModel =
      p.loadedWith mode [] := by
  rw [loadedWith_nil, foldl_put_kind _ (List.replicate p.variableCount .continuous)]
  · rfl
  · rw [List.map_replicate]
    rfl

end Kinds
end ConicProgram.Problem
