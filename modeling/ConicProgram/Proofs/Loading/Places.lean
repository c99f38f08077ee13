import ConicProgram.Loading.Cold
import ConicProgram.Proofs.Loading.Cones
import ConicProgram.Proofs.Model.Agreement
import ConicProgram.Proofs.Model.Scope
import ConicProgram.Proofs.Problem.Data

namespace ConicProgram.Problem

variable {α : Type} [Scalar α] {p q : Problem α} {mode : ConeMode} {i j : Nat}

section Rows

-- How many rows of the problem are rows of the model.
def heldRows (p : Problem α) : ConeMode → Nat
  | .auxiliary => p.rowCount
  | .substituted => p.partition.linearRows

def heldRow (p : Problem α) (i : Nat) : Row α :=
  if i < p.partition.linearRows then p.row i else p.tiedRow i

omit [Scalar α] in
theorem Valid.linearRows_le_heldRows (h : p.Valid) (mode : ConeMode) :
    p.partition.linearRows ≤ p.heldRows mode := by
  cases mode
  case auxiliary => exact h.linearRows_le
  case substituted => exact Nat.le_refl _

omit [Scalar α] in
-- The rows of all blocks are the rows behind the linear ones.
theorem Valid.rows_blocks (h : p.Valid) : p.partition.blocks.flatMap (·.rows.toList) =
    List.range' p.partition.linearRows (p.rowCount - p.partition.linearRows) := by
  rw [Partition.blocks, ConeBlock.rows_sequence, ← h.rows, Partition.totalRows_eq,
    Nat.add_sub_cancel_left]

omit [Scalar α] in
theorem Valid.mem_rows_block (h : p.Valid) :
    (∃ b ∈ p.partition.blocks, i ∈ b.rows) ↔ p.partition.linearRows ≤ i ∧ i < p.rowCount := by
  have hm : i ∈ p.partition.blocks.flatMap (·.rows.toList) ↔
      i ∈ List.range' p.partition.linearRows (p.rowCount - p.partition.linearRows) := by
    rw [h.rows_blocks]
  have hl := h.linearRows_le
  simp only [List.mem_flatMap, Span.mem_toList, List.mem_range'_1] at hm
  rw [hm]
  omega

theorem Valid.rows_loaded (h : p.Valid) (mode : ConeMode) :
    (p.loaded mode).rows = (List.range (p.heldRows mode)).map p.heldRow := by
  have hl : p.linearRowList = (List.range p.partition.linearRows).map p.heldRow :=
    List.map_congr_left fun i hi => (if_pos (List.mem_range.mp hi)).symm
  cases mode
  case substituted => exact hl
  case auxiliary =>
    have hr : p.partition.blocks.flatMap (·.rows.toList.map p.tiedRow) =
        (List.range' p.partition.linearRows (p.rowCount - p.partition.linearRows)).map
          p.heldRow := by
      rw [← h.rows_blocks, List.map_flatMap]
      refine List.flatMap_congr fun b hb => List.map_congr_left fun i hi => ?_
      have hi := h.mem_rows_block.mp ⟨b, hb, Span.mem_toList.mp hi⟩
      exact (if_neg (by omega)).symm
    show p.linearRowList ++ _ = _
    rw [hl, hr, ← List.map_append, Lists.range_append h.linearRows_le]
    rfl

theorem Valid.rowCount_loaded (h : p.Valid) (mode : ConeMode) :
    (p.loaded mode).rowCount = p.heldRows mode := by
  rw [Model.rowCount, h.rows_loaded, List.length_map, List.length_range]

theorem Valid.getElem?_rows_loaded (h : p.Valid) (mode : ConeMode) (i : Nat) :
    (p.loaded mode).rows[i]? = if i < p.heldRows mode then some (p.heldRow i) else none := by
  rw [h.rows_loaded, List.getElem?_map]
  split
  case isTrue hi => rw [List.getElem?_range hi, Option.map_some]
  case isFalse hi => simpa using hi

@[simp]
theorem sense_heldRow (p : Problem α) (i : Nat) : (p.heldRow i).sense = p.sense i := by
  unfold heldRow tiedRow row
  split <;> simp

@[simp]
theorem rhs_heldRow (p : Problem α) (i : Nat) : (p.heldRow i).rhs = p.rhs.getD i 0 := by
  unfold heldRow tiedRow row
  split <;> simp

theorem Valid.get?_row (h : p.Valid) (i j : Nat) :
    (p.row i).coefficients.get? j = ((p.matrix.row i).lookup j).map (0 + ·) := by
  have ⟨cs, hm, _, hf⟩ := h.exists_columns
  rw [row, Row.get?_ofEntries]
  rw [hm]
  exact (hf.row_increasing i).nodup

theorem Valid.entryAt_row (h : p.Valid) (i j : Nat) :
    entryAt (p.matrix.row i) j = p.matrix.entry i j := by
  have ⟨cs, hm, _, hf⟩ := h.exists_columns
  rw [hm]
  exact hf.entryAt_row

theorem Valid.entry_eq_zero (h : p.Valid) (hj : p.variableCount ≤ j) : p.matrix.entry i j = 0 := by
  have ⟨cs, hm, hn, _⟩ := h.exists_columns
  rw [hm]
  exact SparseMatrix.entry_eq_zero_of_cols_le (hn ▸ hj)

theorem Valid.entry_eq_zero_of_rowCount_le (h : p.Valid) (hi : p.rowCount ≤ i) :
    p.matrix.entry i j = 0 := by
  have ⟨cs, hm, _, hf⟩ := h.exists_columns
  rw [hm]
  exact hf.entry_eq_zero_of_rows_le hi

omit [Scalar α] in
theorem Similar.slackColumn_eq (hs : p.Similar q) : p.slackColumn = q.slackColumn := by
  funext i
  rw [slackColumn, slackColumn, hs.columns, hs.partition]

variable [Numeric α]

theorem Valid.coefficient_row (h : p.Valid) (hn : p.Numbers) (i j : Nat) :
    (p.row i).coefficient j == p.matrix.entry i j := by
  have he := h.isNumber_entry hn i j
  rw [Row.coefficient, h.get?_row, ← h.entryAt_row, entryAt]
  rw [← h.entryAt_row, entryAt] at he
  cases hl : (p.matrix.row i).lookup j
  case none => exact Numeric.zero_isNumber
  case some v =>
    rw [hl] at he
    exact Numeric.zero_add he

theorem Valid.coefficient_heldRow (h : p.Valid) (hn : p.Numbers) (hj : j < p.variableCount) :
    (p.heldRow i).coefficient j == p.matrix.entry i j := by
  have hs : j ≠ p.slackColumn i := by
    unfold slackColumn
    omega
  have hc := h.coefficient_row hn i j
  unfold heldRow
  split
  case isTrue => exact hc
  case isFalse =>
    rw [tiedRow, Row.coefficient_setCoefficient, if_neg hs]
    exact hc

-- The columns of slacks hold the same in all problems of one shape.
theorem Valid.coefficient_heldRow_slack (hp : p.Valid) (hq : q.Valid) (hnp : p.Numbers)
    (hnq : q.Numbers) (hs : p.Similar q) (hj : p.variableCount ≤ j) :
    (p.heldRow i).coefficient j == (q.heldRow i).coefficient j := by
  have hz : (p.row i).coefficient j == (q.row i).coefficient j := by
    have hp' := hp.coefficient_row hnp i j
    have hq' := hq.coefficient_row hnq i j
    rw [hp.entry_eq_zero hj] at hp'
    rw [hq.entry_eq_zero (hs.columns ▸ hj)] at hq'
    exact Numeric.trans hp' (Numeric.symm hq')
  unfold heldRow
  rw [hs.partition]
  split
  case isTrue => exact hz
  case isFalse =>
    rw [tiedRow, tiedRow, Row.coefficient_setCoefficient, Row.coefficient_setCoefficient,
      hs.slackColumn_eq]
    split
    case isFalse => exact hz
    case isTrue =>
      split
      · exact Numeric.zero_isNumber
      · exact Numeric.one_isNumber

end Rows

section Instance

@[simp]
theorem source_coneRecord (p : Problem α) (mode : ConeMode) (b : ConeBlock) :
    (p.coneRecord mode b).source = b.rows := by
  cases mode <;> rfl

theorem find?_coneRecord (p : Problem α) (mode : ConeMode) (i : Nat) :
    (p.partition.blocks.map (p.coneRecord mode)).find? (i ∈ ·.source) =
      (p.partition.blocks.find? (i ∈ ·.rows)).map (p.coneRecord mode) := by
  rw [List.find?_map]
  refine congrArg (fun f => (p.partition.blocks.find? f).map _) (funext fun b => ?_)
  rw [Function.comp_apply, source_coneRecord]

-- What the record of a cone says of the rows of the cone.
theorem row_coneRecord {b : ConeBlock} (hi : i ∈ b.rows) :
    (if (p.coneRecord mode b).rows.isEmpty then none
      else some ((p.coneRecord mode b).rows.start + (i - (p.coneRecord mode b).source.start))) =
    match mode with | .auxiliary => some i | .substituted => none := by
  have ⟨hfirst, hstop⟩ := Span.mem_def.mp hi
  cases mode
  case substituted => rfl
  case auxiliary =>
    have he : ¬b.rows.isEmpty := by
      rw [Span.isEmpty, decide_eq_true_iff]
      omega
    rw [coneRecord, if_neg he, Nat.add_sub_cancel' hfirst]

-- The rows of the model keep their numbers. A row that is held in a constraint has none.
theorem Valid.realizedRow?_loadedInstance (h : p.Valid) (mode : ConeMode) (i : Nat) :
    (p.loadedInstance mode).realizedRow? i = if i < p.heldRows mode then some i else none := by
  have hl := h.linearRows_le_heldRows mode
  have hb := h.mem_rows_block (i := i)
  show (if i < p.partition.linearRows then _
    else (p.partition.blocks.map (p.coneRecord mode)).find? (i ∈ ·.source) >>= _) = _
  rw [find?_coneRecord]
  by_cases hi : i < p.partition.linearRows
  case pos => rw [if_pos hi, if_pos (hi.trans_le hl)]
  case neg =>
    rw [if_neg hi]
    cases hf : p.partition.blocks.find? (i ∈ ·.rows)
    case none =>
      have hn : ∀ b ∈ p.partition.blocks, i ∉ b.rows := by simpa using List.find?_eq_none.mp hf
      have hr : ¬i < p.rowCount := fun hr =>
        have ⟨b, hbl, hm⟩ := hb.mpr ⟨not_lt.mp hi, hr⟩
        hn b hbl hm
      cases mode
      case auxiliary => exact (if_neg hr).symm
      case substituted => exact (if_neg hi).symm
    case some b =>
      have hm : i ∈ b.rows := by simpa using List.find?_some hf
      have ⟨_, hr⟩ := hb.mp ⟨b, List.mem_of_find?_eq_some hf, hm⟩
      refine (row_coneRecord hm).trans ?_
      cases mode
      case auxiliary => exact (if_pos hr).symm
      case substituted => exact (if_neg hi).symm

theorem Similar.loadedInstance (hs : p.Similar q) (mode : ConeMode) (o : ReferenceOptimizer α) :
    { p.loadedInstance mode with optimizer := o } =
      { q.loadedInstance mode with optimizer := o } := by
  have hr : p.coneRecord mode = q.coneRecord mode := by
    funext b
    have hc : p.constraintCount mode b = q.constraintCount mode b := by
      rw [constraintCount, constraintCount, hs.partition, length_cones_loadedWith q]
    cases mode <;> simp only [coneRecord, hc, slackColumn, hs.columns, hs.partition]
  simp only [Problem.loadedInstance, instanceWith, columnTable, hr, hs.columns, hs.partition]

end Instance

section Columns

theorem objective_getD_loaded (p : Problem α) (mode : ConeMode) (j : Nat) :
    (p.loaded mode).objective.getD j 0 = p.objective.getD j 0 := by
  cases mode
  case substituted => rfl
  case auxiliary =>
    show (p.objective ++ List.replicate _ 0).getD j 0 = _
    simp only [List.getD_eq_getElem?_getD, List.getElem?_append, List.getElem?_replicate]
    split
    case isTrue => rfl
    case isFalse hj =>
      rw [List.getElem?_eq_none (not_lt.mp hj)]
      split <;> rfl

theorem map_kind_loaded (p : Problem α) (mode : ConeMode) :
    ∃ n, (p.loaded mode).columns.map (·.kind) = p.kinds ++ List.replicate n .continuous ∧
      n = (p.loaded mode).columnCount - p.variableCount := by
  refine ⟨_, ?_, rfl⟩
  cases mode
  case substituted =>
    simp [loaded, loadedWith, structuralColumns, Model.columnCount, length_kinds,
      Function.comp_def]
  case auxiliary =>
    have hc : ((p.loaded .auxiliary).columnCount - p.variableCount) =
        (p.partition.blocks.map (·.size)).sum := by
      rw [loaded, columnCount_loadedWith_auxiliary, Nat.add_sub_cancel_left]
    have hs : (p.partition.blocks.flatMap fun b =>
        (slackBounds b.size : List (Bounds α)).map fun _ => ColumnKind.continuous) =
        List.replicate (p.partition.blocks.map (·.size)).sum .continuous := by
      rw [List.eq_replicate_iff, List.length_flatMap]
      simp [length_slackBounds]
    rw [hc, ← hs]
    simp [loaded, loadedWith, structuralColumns, List.map_flatMap, Function.comp_def]

omit [Scalar α] in
theorem any_isDiscrete_foldl_set {ks : List (Nat × ColumnKind)} {kinds : List ColumnKind}
    (hk : ∀ k ∈ ks, k.1 < kinds.length ∧ k.2.isDiscrete) :
    (ks.foldl (fun kinds (j, kind) => kinds.set j kind) kinds).any (·.isDiscrete) =
      (!ks.isEmpty || kinds.any (·.isDiscrete)) := by
  induction ks generalizing kinds
  case nil => simp
  case cons k ks hi =>
    have ⟨hl, hd⟩ := hk k (List.mem_cons_self ..)
    have hany : (kinds.set k.1 k.2).any (·.isDiscrete) :=
      List.any_eq_true.mpr ⟨k.2, List.mem_set hl k.2, hd⟩
    rw [List.foldl_cons, hi fun k' hm => ?_]
    · simp [hany]
    · rw [List.length_set]
      exact hk k' (List.mem_cons_of_mem _ hm)

omit [Scalar α] in
-- Some variable has a discrete kind exactly if the problem names one, however often it does.
theorem Valid.any_isDiscrete_kinds (h : p.Valid) :
    p.kinds.any (·.isDiscrete) = p.isMixedInteger := by
  rw [kinds, any_isDiscrete_foldl_set fun k hk => ?_]
  · have hc :
        (List.replicate p.variableCount ColumnKind.continuous).any (·.isDiscrete) = false := by
      simp [ColumnKind.isDiscrete]
    rw [hc, Bool.or_false, isMixedInteger]
    cases hb : p.booleans <;> cases hi : p.integers <;> simp [discreteKinds, hb, hi]
  · rw [List.length_replicate]
    simp only [discreteKinds, List.mem_append, List.mem_map] at hk
    rcases hk with ⟨j, hj, rfl⟩ | ⟨j, hj, rfl⟩
    · exact ⟨h.booleans j hj, rfl⟩
    · exact ⟨h.integers j hj, rfl⟩

theorem map_bounds_loaded (hs : p.Similar q) (mode : ConeMode) :
    (p.loaded mode).columns.map (·.bounds) = (q.loaded mode).columns.map (·.bounds) := by
  have hk : p.structuralColumns.map (·.bounds) = q.structuralColumns.map (·.bounds) := by
    simp [structuralColumns, Function.comp_def, length_kinds, hs.columns]
  cases mode
  case substituted => exact hk
  case auxiliary =>
    show (p.structuralColumns ++ _).map _ = (q.structuralColumns ++ _).map _
    rw [List.map_append, List.map_append, hk, hs.partition]

theorem columnCount_loaded (hs : p.Similar q) (mode : ConeMode) :
    (p.loaded mode).columnCount = (q.loaded mode).columnCount := by
  simpa [Model.columnCount] using congrArg List.length (map_bounds_loaded hs mode)

theorem Valid.objective_loaded (h : p.Valid) (mode : ConeMode) :
    (p.loaded mode).objective = p.paddedObjective (p.loaded mode).columnCount := by
  have ho := h.objective
  cases mode
  case auxiliary =>
    rw [paddedObjective, loaded, columnCount_loadedWith_auxiliary, ho, Nat.add_sub_cancel_left,
      List.take_of_length_le (by omega)]
    rfl
  case substituted =>
    rw [paddedObjective, loaded, columnCount_loadedWith_substituted, ho, Nat.sub_self,
      List.take_of_length_le (by omega), List.replicate_zero, List.append_nil]
    rfl

theorem length_paddedObjective (columns : Nat) :
    (p.paddedObjective columns).length = columns := by
  simp [paddedObjective]
  omega

theorem Valid.length_objective_loaded (h : p.Valid) (mode : ConeMode) :
    (p.loaded mode).objective.length = (p.loaded mode).columnCount := by
  rw [h.objective_loaded, length_paddedObjective]

theorem variableCount_le_columnCount (p : Problem α) (mode : ConeMode) :
    p.variableCount ≤ (p.loaded mode).columnCount := by
  cases mode
  case auxiliary =>
    rw [loaded, columnCount_loadedWith_auxiliary]
    exact Nat.le_add_right ..
  case substituted => rw [loaded, columnCount_loadedWith_substituted]

end Columns
section Scope

omit [Scalar α] in
theorem Valid.nodup_row (h : p.Valid) (i : Nat) : ((p.matrix.row i).map (·.1)).Nodup := by
  have ⟨cs, hm, _, hf⟩ := h.exists_columns
  rw [hm]
  exact (hf.row_increasing i).nodup

theorem Valid.mem_entries_row (h : p.Valid) {e : Nat × α}
    (he : e ∈ (p.row i).coefficients.entries) : e.1 < p.variableCount := by
  have ⟨w, hw, _⟩ := (Row.mem_ofEntries (h.nodup_row i)).mp he
  exact h.col_lt_of_mem_row (e := (e.1, w)) hw

theorem Valid.slackColumn_lt (h : p.Valid) (hl : p.partition.linearRows ≤ i) (hi : i < p.rowCount) :
    p.slackColumn i < (p.loaded .auxiliary).columnCount := by
  have ht := Partition.totalRows_eq p.partition
  have hr := h.rows
  have hs : (p.partition.blocks.map (·.size)).sum = p.partition.cones.sum := by
    rw [Partition.sizes_blocks]
  rw [loaded, columnCount_loadedWith_auxiliary, hs, slackColumn]
  omega

theorem Valid.exists_expression (h : p.Valid) {c : ConeConstraint α} {e : AffineExpr α}
    (hc : c ∈ (p.loaded mode).cones) (he : e ∈ c.expressions) :
    ∃ i, p.partition.linearRows ≤ i ∧ i < p.rowCount ∧ e = p.expression mode i := by
  have hx : ∃ b ∈ p.partition.blocks, c ∈ b.constraint (b.rows.toList.map (p.expression mode)) := by
    cases mode
    case substituted => exact List.mem_flatMap.mp hc
    case auxiliary =>
      have ⟨b, hb, hc⟩ := List.mem_flatMap.mp hc
      split at hc
      case isTrue => cases hc
      case isFalse => exact ⟨b, hb, hc⟩
  have ⟨b, hb, hc⟩ := hx
  rw [ConeBlock.expressions_of_mem_constraint hc] at he
  have ⟨i, hi, he⟩ := List.mem_map.mp he
  have ⟨h₁, h₂⟩ := h.mem_rows_block.mp ⟨b, hb, Span.mem_toList.mp hi⟩
  exact ⟨i, h₁, h₂, he.symm⟩

theorem Valid.scoped_loaded (h : p.Valid) (mode : ConeMode) : (p.loaded mode).Scoped where
  rows := by
    have hn := p.variableCount_le_columnCount mode
    rw [h.rows_loaded]
    simp only [List.mem_map, List.mem_range, forall_exists_index, and_imp]
    rintro _ i hi rfl e he
    unfold heldRow at he
    split at he
    case isTrue => exact (h.mem_entries_row he).trans_le hn
    case isFalse hl =>
      rcases Model.mem_entries_setCoefficient he with rfl | he
      · cases mode
        case auxiliary => exact h.slackColumn_lt (not_lt.mp hl) hi
        case substituted => exact absurd hi hl
      · exact (h.mem_entries_row he).trans_le hn
  cones := by
    intro c hc e he t ht
    have ⟨i, h₁, h₂, hx⟩ := h.exists_expression hc he
    subst hx
    cases mode
    case auxiliary =>
      cases List.mem_singleton.mp ht
      exact h.slackColumn_lt h₁ h₂
    case substituted =>
      have ⟨(j, v), hu, hv⟩ := List.mem_map.mp ht
      rw [← hv]
      exact (h.col_lt_of_mem_row hu).trans_le (p.variableCount_le_columnCount .substituted)
  terms := by
    intro c hc e he
    have ⟨i, _, _, hx⟩ := h.exists_expression hc he
    subst hx
    cases mode
    case auxiliary => exact List.nodup_singleton _
    case substituted =>
      have hd := h.nodup_row i
      simpa [expression, slack, Function.comp_def] using hd

end Scope
end ConicProgram.Problem
