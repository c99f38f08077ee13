import ConicProgram.Proofs.Loading.Linear
import ConicProgram.Proofs.Model.Scope

namespace ConicProgram

theorem Instance.yields_call {α σ ω β : Type} {op : Action α σ ω (OptimizerError α) β} {b : β}
    {s : Instance σ} {o : σ} (h : op.Yields s.optimizer b o) :
    (call op).Yields s b { s with optimizer := o } :=
  (h.mapCause _).within

namespace Problem

variable {α ω : Type} [Scalar α] {p : Problem α} {bs : List ConeBlock} {b : ConeBlock}

section Rows

omit [Scalar α] in
theorem Valid.block_stop (h : p.Valid) (hb : p.partition.Follows bs b) :
    b.start + b.size ≤ p.rowCount :=
  h.rows ▸ hb.stop

omit [Scalar α] in
theorem Valid.size_pos (h : p.Valid) (hb : p.partition.Follows bs b) : 0 < b.size :=
  h.cones b.size hb.size

theorem toList_rows (b : ConeBlock) : b.rows.toList = List.range' b.start b.size := by
  rw [Span.toList, Span.length, ConeBlock.rows, Nat.add_sub_cancel_left]

theorem length_toList_rows (b : ConeBlock) : b.rows.toList.length = b.size := by
  rw [toList_rows, List.length_range']

theorem Valid.rowBlock?_eq (h : p.Valid) (hw : p.rowCount ≤ Starts.wordSize)
    (hb : p.partition.Follows bs b) :
    p.matrix.rowBlock? b.rows = some (.ofRows (b.rows.toList.map p.matrix.row)) := by
  have ⟨cs, hm, _, hf⟩ := h.exists_columns
  rw [hm, SparseMatrix.rowBlock?_ofColumns hf hw (Nat.le_add_right ..) (h.block_stop hb),
    toList_rows, List.range'_eq_map_range, List.map_map, Span.length, ConeBlock.rows,
    Nat.add_sub_cancel_left]
  rfl

theorem Valid.slice?_block (h : p.Valid) (hb : p.partition.Follows bs b) :
    b.rows.slice? p.rhs = some (b.rows.toList.map fun i => p.rhs.getD i 0) := by
  have hl : b.rows.stop ≤ p.rhs.length := h.rhs ▸ h.block_stop hb
  rw [Span.slice?_of_le (Nat.le_add_right ..) hl, toList_rows, Span.length, ConeBlock.rows,
    Nat.add_sub_cancel_left, Lists.take_drop_eq_map 0 hl]

omit [Scalar α] in
theorem Valid.col_lt_of_mem_row (h : p.Valid) {i : Nat} {e : Nat × α} (he : e ∈ p.matrix.row i) :
    e.1 < p.variableCount := by
  have ⟨cs, hm, hn, hf⟩ := h.exists_columns
  rw [hm] at he
  exact hn ▸ hf.col_lt_of_mem_row he

end Rows

section Substituted

theorem slacks_eq (p : Problem α) (b : ConeBlock) :
    (List.range b.size).mapM (ConeMode.slack? (.ofRows (b.rows.toList.map p.matrix.row))
      (b.rows.toList.map fun i => p.rhs.getD i 0)) = some (b.rows.toList.map p.slack) := by
  rw [toList_rows, List.range'_eq_map_range, List.map_map, List.map_map, List.map_map,
    Lists.mapM_eq_some_iff, List.map_map]
  refine List.map_congr_left fun k hk => ?_
  have hk := List.mem_range.mp hk
  have hr : (RowBlock.ofRows ((List.range b.size).map (p.matrix.row ∘ (b.start + ·)))).row? k =
      some (p.matrix.row (b.start + k)) :=
    RowBlock.row?_ofRows (by rw [List.getElem?_map, List.getElem?_range hk]; rfl)
  simp [ConeMode.slack?, hr, hk, slack]

theorem Valid.yields_addSubstituted (h : p.Valid) (hb : p.partition.Follows bs b)
    (engine : Engine α ω) :
    (ConeMode.addSubstituted (Instance.target (ReferenceOptimizer.operations engine)) b
      (.ofRows (b.rows.toList.map p.matrix.row)) (b.rows.toList.map fun i => p.rhs.getD i 0)).Yields
      (p.instanceWith .substituted bs) (p.coneRecord .substituted b)
      { p.instanceWith .substituted bs with
        optimizer := .holding default (p.loadedWith .substituted (bs ++ [b])) } := by
  refine .bind (Action.yields_ofOption (slacks_eq p b)) ?_
  cases hs : b.rows.toList.map p.slack
  case nil =>
    have := congrArg List.length hs
    rw [List.length_map, length_toList_rows] at this
    exact absurd this (h.size_pos hb).ne'
  case cons apex legs =>
    have hc : (p.loadedWith .substituted bs).addCone ⟨some (ConeMode.coneName b), apex, legs⟩ =
        .ok (p.loadedWith .substituted (bs ++ [b])) := by
      rw [Model.addCone_eq_ok_iff.mpr ⟨?_, rfl⟩]
      · simp [loadedWith, hs, ConeBlock.constraint]
      · intro e he t ht
        obtain ⟨i, _, hi⟩ := List.mem_map.mp (hs ▸ he : e ∈ b.rows.toList.map p.slack)
        obtain ⟨⟨j, v⟩, hu, hv⟩ := List.mem_map.mp (hi ▸ ht : t ∈ (p.slack i).terms)
        rw [columnCount_loadedWith_substituted, ← hv]
        exact h.col_lt_of_mem_row (e := (j, v)) hu
    refine .bind (Instance.yields_call (ReferenceOptimizer.yields_addCone rfl hc)) ?_
    rw [coneRecord, constraintCount, hb.taken]
    exact Action.yields_pure

end Substituted

section Auxiliary

-- The model on the way to the next block: its columns are there, and its rows without them.
def withSlackColumns (p : Problem α) (bs : List ConeBlock) (b : ConeBlock) : Model α :=
  (p.loadedWith .auxiliary bs).addColumns (slackBounds b.size)

def withSlackRows (p : Problem α) (bs : List ConeBlock) (b : ConeBlock) : Model α :=
  { p.withSlackColumns bs b with
    rows := (p.withSlackColumns bs b).rows ++ b.rows.toList.map p.row }

def withTiedRows (p : Problem α) (bs : List ConeBlock) (b : ConeBlock) : Model α :=
  { p.withSlackColumns bs b with
    rows := (p.withSlackColumns bs b).rows ++ b.rows.toList.map p.tiedRow }

theorem columnCount_withSlackColumns : (p.withSlackColumns bs b).columnCount =
    (p.loadedWith .auxiliary bs).columnCount + b.size := by
  simp [withSlackColumns, Model.columnCount, Model.addColumns, length_slackBounds]

omit [Scalar α] in
theorem length_columnTable (p : Problem α) (bs : List ConeBlock) :
    (p.columnTable .auxiliary bs).length = p.variableCount + (bs.map (·.size)).sum := by
  simp [columnTable, ColumnTable.length, coneOrigins, List.length_flatMap]

theorem columnCount_eq_length (p : Problem α) (bs : List ConeBlock) :
    (p.loadedWith .auxiliary bs).columnCount = (p.columnTable .auxiliary bs).length := by
  rw [columnCount_loadedWith_auxiliary, length_columnTable]

theorem slackColumn_eq (hb : p.partition.Follows bs b) (k : Nat) :
    p.slackColumn (b.start + k) = (p.loadedWith .auxiliary bs).columnCount + k := by
  rw [slackColumn, columnCount_loadedWith_auxiliary, hb.start]
  omega

theorem slackColumn_start (hb : p.partition.Follows bs b) :
    p.slackColumn b.start = (p.loadedWith .auxiliary bs).columnCount :=
  slackColumn_eq hb 0

theorem slackColumn_lt (hb : p.partition.Follows bs b) {i : Nat} (hi : i ∈ b.rows.toList) :
    p.slackColumn i < (p.withSlackColumns bs b).columnCount := by
  have hi : b.start ≤ i ∧ i < b.start + b.size := Span.mem_toList.mp hi
  have := slackColumn_eq hb (i - b.start)
  rw [Nat.add_sub_cancel' hi.1] at this
  rw [columnCount_withSlackColumns]
  omega

omit [Scalar α] in
theorem sense_of_linearRows_le {i : Nat} (h : p.partition.linearRows ≤ i) : p.sense i = .equal :=
  if_neg (by omega)

theorem yields_addConeColumns (hb : p.partition.Follows bs b) (engine : Engine α ω) :
    (Instance.addConeColumns (ReferenceOptimizer.operations engine) b.index
      (slackBounds b.size)).Yields (p.instanceWith .auxiliary bs)
      ⟨p.slackColumn b.start, p.slackColumn b.start + b.size⟩
      { p.instanceWith .auxiliary bs with
        optimizer := .holding default (p.withSlackColumns bs b)
        columns := p.columnTable .auxiliary (bs ++ [b]) } := by
  have hs := slackColumn_start hb
  have hc : (ReferenceOptimizer.addColumns (slackBounds b.size) :
      ReferenceOptimizer.Call α ω Span).Yields
      (.holding default (p.loadedWith .auxiliary bs))
      ⟨p.slackColumn b.start, p.slackColumn b.start + b.size⟩
      (.holding default (p.withSlackColumns bs b)) := by
    rw [hs, ← columnCount_withSlackColumns]
    exact ReferenceOptimizer.yields_addColumns _ rfl
  have ht : (p.columnTable .auxiliary bs).addCone? b.index
      ⟨p.slackColumn b.start, p.slackColumn b.start + b.size⟩ =
      some (p.columnTable .auxiliary (bs ++ [b])) := by
    rw [ColumnTable.addCone?, if_pos (hs.trans (columnCount_eq_length p bs))]
    simp [Span.length, columnTable, coneOrigins]
  refine .bind (Instance.yields_call hc) (.bind Action.yields_state ?_)
  simp only [instanceWith, ht]
  exact .bind (Action.yields_modifyState _) Action.yields_pure

theorem row_eq (hb : p.partition.Follows bs b) :
    (b.rows.toList.map fun i => Row.ofEntries .equal (p.rhs.getD i 0) (p.matrix.row i)) =
      b.rows.toList.map p.row := by
  refine List.map_congr_left fun i hi => ?_
  have hi : b.start ≤ i := (Span.mem_def.mp (Span.mem_toList.mp hi)).1
  have hs := hb.start
  rw [row, sense_of_linearRows_le (by omega)]

theorem Valid.addRows_eq (h : p.Valid) (hb : p.partition.Follows bs b) :
    (p.withSlackColumns bs b).addRows {
      senses := List.replicate b.size .equal
      rhs := b.rows.toList.map fun i => p.rhs.getD i 0
      starts := (RowBlock.ofRows (b.rows.toList.map p.matrix.row)).starts
      colIndices := (RowBlock.ofRows (b.rows.toList.map p.matrix.row)).colIndices
      values := (RowBlock.ofRows (b.rows.toList.map p.matrix.row)).values } =
    .ok (p.withSlackRows bs b) := by
  rw [← length_toList_rows b, Model.addRows_eq, row_eq hb]
  · rfl
  · intro i _ e he
    have := h.col_lt_of_mem_row he
    rw [columnCount_withSlackColumns, columnCount_loadedWith_auxiliary]
    omega

theorem rowCount_withSlackColumns (hb : p.partition.Follows bs b) :
    (p.withSlackColumns bs b).rowCount = b.start := by
  have hl : (bs.flatMap fun b => b.rows.toList.map p.tiedRow).length = (bs.map (·.size)).sum := by
    rw [List.length_flatMap]
    simp only [List.length_map, length_toList_rows]
  rw [hb.start, ← hl, Model.rowCount, withSlackColumns, Model.addColumns, loadedWith,
    List.length_append, length_linearRowList]

theorem rowCount_withSlackRows (hb : p.partition.Follows bs b) :
    (p.withSlackRows bs b).rowCount = b.start + b.size := by
  rw [← rowCount_withSlackColumns hb, Model.rowCount, withSlackRows, List.length_append,
    List.length_map, length_toList_rows, Model.rowCount]

-- With its slack in it each of the new rows is as it should be.
theorem foldl_put_slack (hb : p.partition.Follows bs b) :
    ((List.range b.size).map fun k =>
      .coefficient (b.start + k) (p.slackColumn b.start + k) 1).foldl Model.put
        (p.withSlackRows bs b) = p.withTiedRows bs b := by
  have ⟨rows, hm, hrows⟩ := Model.getElem?_foldl_put_coefficient (m := p.withSlackRows bs b)
    b.start (p.slackColumn b.start) b.size 1
  have hr : rows = (p.withSlackColumns bs b).rows ++ b.rows.toList.map p.tiedRow := by
    refine List.ext_getElem? fun i => ?_
    have hl : (p.withSlackColumns bs b).rows.length = b.start := rowCount_withSlackColumns hb
    rw [hrows, withSlackRows, List.getElem?_append, List.getElem?_append, hl]
    by_cases hi : i < b.start
    case pos =>
      have hn : ¬(b.start ≤ i ∧ i < b.start + b.size) := by omega
      simp only [if_pos hi, if_neg hn, Option.map_id']
    case neg =>
      rw [if_neg hi, if_neg hi, toList_rows, List.getElem?_map, List.getElem?_map]
      by_cases hk : i - b.start < b.size
      case pos =>
        have hs : p.slackColumn b.start + (i - b.start) = p.slackColumn i := by
          have := hb.start
          unfold slackColumn
          omega
        have hp : b.start ≤ i ∧ i < b.start + b.size := by omega
        have hi : b.start + (i - b.start) = i := by omega
        simp [hk, hp, hs, hi, tiedRow]
      case neg => simp [hk]
  rw [hm, hr]
  rfl

theorem Valid.objective_withSlackColumns (h : p.Valid) (bs : List ConeBlock) (b : ConeBlock) :
    (p.withSlackColumns bs b).objective =
      p.objective ++ List.replicate ((bs ++ [b]).map (·.size)).sum 0 := by
  let zeros : List α := List.replicate (bs.map (·.size)).sum 0
  have hc : (p.withSlackColumns bs b).columnCount = p.objective.length + zeros.length + b.size := by
    rw [columnCount_withSlackColumns, columnCount_loadedWith_auxiliary, h.objective,
      List.length_replicate]
  have ho : (p.withSlackColumns bs b).objective =
      (p.objective ++ zeros).take (p.withSlackColumns bs b).columnCount ++ List.replicate
        ((p.withSlackColumns bs b).columnCount - (p.objective ++ zeros).length) 0 := rfl
  rw [ho, hc, List.length_append, Nat.add_sub_cancel_left, List.take_of_length_le (by simp),
    List.append_assoc, List.replicate_append_replicate, List.map_append, List.sum_append]
  simp

-- The model with the block in it, up to the constraint.
theorem Valid.loadedWith_append (h : p.Valid) (bs : List ConeBlock) (b : ConeBlock) :
    p.loadedWith .auxiliary (bs ++ [b]) = { p.withTiedRows bs b with
      cones := (p.loadedWith .auxiliary bs).cones ++ if b.size ≤ 1 then []
        else b.constraint (b.rows.toList.map fun i => .ofColumn (p.slackColumn i)) } := by
  show _ = (⟨_, _, (p.withSlackColumns bs b).objective, _⟩ : Model α)
  rw [h.objective_withSlackColumns]
  simp [loadedWith, withTiedRows, withSlackColumns, Model.addColumns]

theorem columns_toList (hb : p.partition.Follows bs b) :
    (Span.toList ⟨p.slackColumn b.start, p.slackColumn b.start + b.size⟩) =
      b.rows.toList.map p.slackColumn := by
  rw [toList_rows, Span.toList, Span.length, Nat.add_sub_cancel_left, List.range'_eq_map_range,
    List.range'_eq_map_range, List.map_map]
  refine List.map_congr_left fun k _ => ?_
  rw [Function.comp, slackColumn_eq hb, ← Nat.add_zero b.start, slackColumn_eq hb]
  rfl

theorem yields_changeSlacks (hb : p.partition.Follows bs b) (engine : Engine α ω) :
    ((ReferenceOptimizer.operations engine).changeCoefficients
      (Span.toList ⟨b.start, b.start + b.size⟩)
      (Span.toList ⟨p.slackColumn b.start, p.slackColumn b.start + b.size⟩)
      (List.replicate b.size 1)).Yields (.holding default (p.withSlackRows bs b)) ()
      (.holding default (p.withTiedRows bs b)) := by
  have hones : List.replicate b.size (1 : α) = (List.range b.size).map fun _ => 1 := by simp
  have hr : (Span.toList ⟨b.start, b.start + b.size⟩) =
      (List.range b.size).map (b.start + ·) := by
    rw [Span.toList, Span.length, Nat.add_sub_cancel_left, List.range'_eq_map_range]
  have hc : (Span.toList ⟨p.slackColumn b.start, p.slackColumn b.start + b.size⟩) =
      (List.range b.size).map (p.slackColumn b.start + ·) := by
    rw [Span.toList, Span.length, Nat.add_sub_cancel_left, List.range'_eq_map_range]
  rw [hr, hc, hones, ← foldl_put_slack hb]
  refine ReferenceOptimizer.yields_changeCoefficients _ _ _ _ rfl fun k hk => ?_
  have hk := List.mem_range.mp hk
  have hcol : p.slackColumn b.start + k < (p.withSlackColumns bs b).columnCount := by
    rw [columnCount_withSlackColumns, ← slackColumn_start hb]
    omega
  exact ⟨by rw [rowCount_withSlackRows hb]; omega, hcol⟩

-- A block of more than one row has a constraint on its columns.
theorem Valid.addCone_withTiedRows (h : p.Valid) (hb : p.partition.Follows bs b)
    (hs : ¬b.size ≤ 1) {apex : Nat} {legs : List Nat}
    (hr : b.rows.toList.map p.slackColumn = apex :: legs) :
    (p.withTiedRows bs b).addCone {
      name := some (ConeMode.coneName b)
      apex := .ofColumn apex
      legs := legs.map .ofColumn } = .ok (p.loadedWith .auxiliary (bs ++ [b])) := by
  have he : b.rows.toList.map (fun i => (.ofColumn (p.slackColumn i) : AffineExpr α)) =
      .ofColumn apex :: legs.map .ofColumn := by
    rw [← List.map_cons, ← hr, List.map_map]
    rfl
  rw [h.loadedWith_append, if_neg hs, he, ConeBlock.constraint]
  refine Model.addCone_eq_ok_iff.mpr ⟨fun e hm t ht => ?_, rfl⟩
  have hm : e ∈ b.rows.toList.map fun i => (.ofColumn (p.slackColumn i) : AffineExpr α) := by
    rw [he]
    exact hm
  obtain ⟨i, hi, hv⟩ := List.mem_map.mp hm
  have ht : t = (p.slackColumn i, 1) := by simpa [AffineExpr.ofColumn, ← hv] using ht
  rw [ht]
  exact slackColumn_lt hb hi

theorem Valid.yields_addAuxiliary (h : p.Valid) (hb : p.partition.Follows bs b)
    (engine : Engine α ω) :
    (ConeMode.addAuxiliary (Instance.target (ReferenceOptimizer.operations engine)) b
      (.ofRows (b.rows.toList.map p.matrix.row)) (b.rows.toList.map fun i => p.rhs.getD i 0)).Yields
      (p.instanceWith .auxiliary bs) (p.coneRecord .auxiliary b)
      { p.instanceWith .auxiliary bs with
        optimizer := .holding default (p.loadedWith .auxiliary (bs ++ [b]))
        columns := p.columnTable .auxiliary (bs ++ [b]) } := by
  rw [ConeMode.addAuxiliary]
  split
  case h_1 h0 => exact absurd h0 (h.size_pos hb).ne'
  case h_2 legs hlegs =>
    have hbounds : Bounds.nonnegative :: List.replicate legs Bounds.free =
        (slackBounds b.size : List (Bounds α)) := by
      rw [hlegs]
      rfl
    refine .bind Action.yields_pure ?_
    simp only [hbounds]
    refine .bind (yields_addConeColumns hb engine) ?_
    refine .bind (Instance.yields_call (ReferenceOptimizer.yields_addRows rfl
      (Model.checkRowData_ofRows ?_ ?_) (h.addRows_eq hb))) ?_
    · rw [List.length_replicate, List.length_map, length_toList_rows]
    · rw [List.length_map, List.length_map]
    rw [rowCount_withSlackColumns hb, rowCount_withSlackRows hb]
    refine .bind (Instance.yields_call (yields_changeSlacks hb engine)) ?_
    by_cases hs : b.size ≤ 1
    case pos =>
      rw [if_pos hs, coneRecord, if_pos hs, h.loadedWith_append, if_pos hs, List.append_nil]
      exact .bind Action.yields_pure Action.yields_pure
    case neg =>
      rw [if_neg hs, coneRecord, if_neg hs, columns_toList hb, constraintCount, hb.taken]
      cases hr : b.rows.toList.map p.slackColumn
      case nil =>
        have := congrArg List.length hr
        rw [List.length_map, length_toList_rows] at this
        exact absurd this (h.size_pos hb).ne'
      case cons apex legs =>
        exact .bind (Instance.yields_call (ReferenceOptimizer.yields_addCone rfl
          (h.addCone_withTiedRows hb hs hr))) (.bind Action.yields_pure Action.yields_pure)

end Auxiliary
end Problem
end ConicProgram
