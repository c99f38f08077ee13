import ConicProgram.Proofs.Model.Rows
import ConicProgram.Proofs.Sparse.Rows

namespace ConicProgram

section Parts

variable {α δ : Type} {parts : List (List (Nat × α))} {part : List (Nat × α)} {j : Nat}

-- Reading the places of a part one after the other is reading its entries.
theorem foldlM_part {read : δ → Nat → Attempt (OptimizerError α) δ} {f : δ → Nat → α → δ} {d : δ}
    {p : δ → Prop} (h : parts[j]? = some part) (hd : p d)
    (hr : ∀ e ∈ part, ∀ k d, p d → (parts.flatten.map (·.1))[k]? = some e.1 →
      (parts.flatten.map (·.2))[k]? = some e.2 →
        read d k = .ok (f d e.1 e.2) ∧ p (f d e.1 e.2)) :
    (Span.toList ⟨offset parts j, offset parts j + part.length⟩).foldlM read d =
      .ok (part.foldl (fun d e => f d e.1 e.2) d) ∧ p (part.foldl (fun d e => f d e.1 e.2) d) := by
  have hl : Span.toList ⟨offset parts j, offset parts j + part.length⟩ =
      (part.zipIdx (offset parts j)).map (·.2) := by
    rw [List.zipIdx_map_snd, Span.toList, Span.length, Nat.add_sub_cancel_left]
  have hf : part.foldl (fun d e => f d e.1 e.2) d =
      (part.zipIdx (offset parts j)).foldl (fun d x => f d x.1.1 x.1.2) d := by
    conv_lhs => rw [← List.zipIdx_map_fst (offset parts j) part, List.foldl_map]
  rw [hl, List.foldlM_map, hf]
  refine Lists.foldlM_eq_pure (g := fun d (x : (Nat × α) × Nat) => f d x.1.1 x.1.2) hd ?_
  rintro ⟨e, k⟩ hx d hd
  obtain ⟨hk, he⟩ := List.mk_mem_zipIdx_iff_le_and_getElem?_sub.mp hx
  have hp := getElem?_offset h he
  rw [Nat.add_sub_cancel' hk] at hp
  refine hr e (List.mem_of_getElem? he) k d hd ?_ ?_ <;> rw [List.getElem?_map, hp] <;> rfl

theorem fits_runningTotals {entries : Nat} (he : parts.flatten.length ≤ entries) :
    Starts.fits (Starts.runningTotals 0 (parts.map List.length)) parts.length entries := by
  have hs : (Starts.runningTotals 0 (parts.map List.length))[parts.length]? =
      some parts.flatten.length := by
    simp [Starts.getElem?_runningTotals, ← List.map_take]
  have hc := SparseMatrix.consecutive_runningTotals 0 (parts.map List.length)
  rw [Starts.fits, hc, Starts.length_runningTotals, List.length_map, hs]
  simpa using he

end Parts

namespace Model

variable {α : Type} [Scalar α]

theorem getElem?_foldl_modify (ts : List (Triplet α)) (rows : List (Row α)) (i : Nat) :
    (ts.foldl (fun rows t => rows.modify t.row (·.addCoefficient t.col t.value)) rows)[i]? =
      rows[i]?.map (·.addEntries
        (ts.filterMap fun t => if t.row = i then some (t.col, t.value) else none)) := by
  induction ts generalizing rows
  case nil => simp [Row.addEntries]
  case cons t ts hi =>
    rw [List.foldl_cons, hi, List.getElem?_modify]
    by_cases h : t.row = i
    case pos => cases rows[i]? <;> simp [h, Row.addEntries_cons]
    case neg => simp [h]

-- The rows with the entries of column `j` added to those that they name.
def addPart (j : Nat) (part : List (Nat × α)) (rows : List (Row α)) : List (Row α) :=
  part.foldl (fun rows e => rows.modify e.1 (·.addCoefficient j e.2)) rows

variable {rows : Nat} {cs : List (List (Nat × α))} {senses : List RowSense} {rhs : List α}
  {lower upper objective : List α}

theorem addColumnEntries_ofColumns {rs : List (Row α)} {j : Nat}
    (h : SparseMatrix.Columns.Fit senses.length cs) (hj : j < cs.length)
    (hrs : rs.length = senses.length) :
    addColumnEntries {
      senses, rhs, lower, upper, objective
      starts := (SparseMatrix.ofColumns rows cs).starts
      rowIndices := (SparseMatrix.ofColumns rows cs).rowIndices
      values := (SparseMatrix.ofColumns rows cs).values } rs j = .ok (addPart j (cs.getD j []) rs) ∧
    (addPart j (cs.getD j []) rs).length = senses.length := by
  have hc : cs[j]? = some (cs.getD j []) := by
    rw [List.getD_eq_getElem?_getD, List.getElem?_eq_getElem hj, Option.getD_some]
  have h₁ : (SparseMatrix.ofColumns rows cs).starts[j]? = _ :=
    SparseMatrix.starts_ofColumns hj.le
  have h₂ : (SparseMatrix.ofColumns rows cs).starts[j + 1]? = _ :=
    SparseMatrix.starts_ofColumns (Nat.succ_le_of_lt hj)
  rw [offset_succ hc] at h₂
  rw [addColumnEntries, h₁, h₂]
  refine foldlM_part (f := fun (rs : List (Row α)) i v => rs.modify i (·.addCoefficient j v))
    (p := fun rs => rs.length = senses.length) hc hrs fun e he k rs hrs hi hv => ?_
  have he : e.1 < senses.length := h.below _ (List.mem_of_getElem? hc) e he
  have hrow := List.getElem?_eq_getElem (hrs.symm ▸ he : e.1 < rs.length)
  have hi : (SparseMatrix.ofColumns rows cs).rowIndices[k]? = some e.1 := hi
  have hv : (SparseMatrix.ofColumns rows cs).values[k]? = some e.2 := hv
  have hk : (OptimizerError.checkIndex .row e.1 senses.length : Except (OptimizerError α) Unit) =
      .ok () := if_pos he
  refine ⟨?_, by simpa using hrs⟩
  simp only [hi, hv, LoadData.rowCount, hk, hrow, Attempt.ofOption, Attempt.ofExcept, bind,
    Except.bind]
  rw [List.modify_eq_set_getElem?, hrow]
  rfl

-- Once all columns have been added, each row has what stands in it.
theorem foldl_addPart_ofColumns :
    (List.range cs.length).foldl (fun rs j => addPart j (cs.getD j []) rs)
      (senses.zipWith (fun sense rhs => { sense, rhs, coefficients := .empty }) rhs) =
    (senses.zip rhs).zipIdx.map fun ((sense, rhs), i) =>
      Row.ofEntries sense rhs ((SparseMatrix.ofColumns rows cs).row i) := by
  have hf : (SparseMatrix.ofColumns rows cs).entries =
      (List.range cs.length).flatMap fun j => (cs.getD j []).map fun e => ⟨e.1, j, e.2⟩ := by
    simp only [SparseMatrix.entries, SparseMatrix.column_ofColumns_eq, SparseMatrix.cols_ofColumns]
  have hg := fun i => getElem?_foldl_modify (SparseMatrix.ofColumns rows cs).entries
    (senses.zipWith (fun sense rhs => { sense, rhs, coefficients := .empty }) rhs) i
  simp only [hf, List.foldl_flatMap, List.foldl_map] at hg
  refine List.ext_getElem? fun i => ?_
  simp only [addPart]
  rw [hg, ← hf, List.getElem?_map, List.getElem?_zipIdx, List.getElem?_zipWith, List.zip,
    List.getElem?_zipWith]
  cases senses[i]? <;> cases rhs[i]? <;> simp [Row.ofEntries, SparseMatrix.row]

-- The columns are added one after the other, and each row takes up what stands in it.
theorem ofLoadData_ofColumns (h : SparseMatrix.Columns.Fit senses.length cs)
    (hr : rhs.length = senses.length) (hn : objective.length = cs.length)
    (hl : lower.length = cs.length) (hu : upper.length = cs.length) :
    ofLoadData {
      senses, rhs, lower, upper, objective
      starts := (SparseMatrix.ofColumns rows cs).starts
      rowIndices := (SparseMatrix.ofColumns rows cs).rowIndices
      values := (SparseMatrix.ofColumns rows cs).values } =
    .ok {
      rows := (senses.zip rhs).zipIdx.map fun ((sense, rhs), i) =>
        .ofEntries sense rhs ((SparseMatrix.ofColumns rows cs).row i)
      columns := lower.zipWith (fun lower upper => ⟨⟨lower, upper⟩, .continuous⟩) upper
      objective
      cones := [] } := by
  let d : LoadData α := {
    senses, rhs, lower, upper, objective
    starts := (SparseMatrix.ofColumns rows cs).starts
    rowIndices := (SparseMatrix.ofColumns rows cs).rowIndices
    values := (SparseMatrix.ofColumns rows cs).values }
  have hcol j (hj : j ∈ List.range cs.length) rs (hrs : rs.length = d.rowCount) :
      addColumnEntries d rs j = .ok (addPart j (cs.getD j []) rs) ∧
        (addPart j (cs.getD j []) rs).length = d.rowCount :=
    addColumnEntries_ofColumns h (List.mem_range.mp hj) hrs
  have hfits : Starts.fits d.starts d.columnCount d.rowIndices.length := by
    show Starts.fits _ objective.length _
    rw [hn]
    exact fits_runningTotals (List.length_map _).ge
  have hv : d.rowIndices.length = d.values.length := by
    show (cs.flatten.map _).length = (cs.flatten.map _).length
    rw [List.length_map, List.length_map]
  show ofLoadData d = _
  rw [ofLoadData, if_neg (by simpa [d, LoadData.rowCount] using hr),
    if_neg (by simp [d, LoadData.columnCount, hl, hu, hn]), if_neg (by rw [hfits, hv]; simp)]
  have hn : d.columnCount = cs.length := hn
  have hb : (d.senses.zipWith (fun sense rhs => ({ sense, rhs, coefficients := .empty } : Row α))
      d.rhs).length = d.rowCount := by
    simp [d, LoadData.rowCount, hr]
  obtain ⟨hf, _⟩ :=
    Lists.foldlM_eq_pure (p := fun rs : List (Row α) => rs.length = d.rowCount) hb hcol
  simp only [hn]
  rw [hf, foldl_addPart_ofColumns]
  rfl

theorem newRow_eq {m : Model α} {lists : List (List (Nat × α))} {i : Nat}
    {list : List (Nat × α)} {sense : RowSense} {v : α} (h : lists[i]? = some list)
    (hm : ∀ e ∈ list, e.1 < m.columnCount) :
    m.newRow {
      senses, rhs
      starts := (RowBlock.ofRows lists).starts
      colIndices := (RowBlock.ofRows lists).colIndices
      values := (RowBlock.ofRows lists).values } i sense v = .ok (.ofEntries sense v list) := by
  have hi : i < lists.length := (List.getElem?_eq_some_iff.mp h).1
  have hs : ∀ i ≤ lists.length, (RowBlock.ofRows lists).starts[i]? = some (offset lists i) := by
    intro i hi
    simp [RowBlock.ofRows, Starts.getElem?_runningTotals, offset, hi]
  simp only [newRow, hs i hi.le, hs (i + 1) hi, offset_succ h]
  refine (foldlM_part (f := fun (r : Row α) j v => r.addCoefficient j v) (p := fun _ => True) h
    trivial fun e he k r _ hj hv => ⟨?_, trivial⟩).1
  simp only [RowBlock.ofRows, hj, hv, checkColumn, OptimizerError.checkIndex, if_pos (hm e he),
    Attempt.ofOption, Attempt.ofExcept, bind, Except.bind]
  rfl

omit [Scalar α] in
theorem checkRowData_ofRows {lists : List (List (Nat × α))} (hs : senses.length = lists.length)
    (hr : rhs.length = lists.length) :
    checkRowData {
      senses, rhs
      starts := (RowBlock.ofRows lists).starts
      colIndices := (RowBlock.ofRows lists).colIndices
      values := (RowBlock.ofRows lists).values } = .ok () := by
  have hf : Starts.fits (RowBlock.ofRows lists).starts lists.length
      (RowBlock.ofRows lists).colIndices.length :=
    fits_runningTotals (List.length_map _).ge
  have hv : (RowBlock.ofRows lists).colIndices.length = (RowBlock.ofRows lists).values.length := by
    show (lists.flatten.map _).length = (lists.flatten.map _).length
    rw [List.length_map, List.length_map]
  rw [checkRowData, if_neg]
  rw [hs, hr, hf, hv]
  simp

theorem addRows_eq {m : Model α} (is : List Nat) (sense : RowSense) (value : Nat → α)
    (list : Nat → List (Nat × α)) (hm : ∀ i ∈ is, ∀ e ∈ list i, e.1 < m.columnCount) :
    m.addRows {
      senses := List.replicate is.length sense
      rhs := is.map value
      starts := (RowBlock.ofRows (is.map list)).starts
      colIndices := (RowBlock.ofRows (is.map list)).colIndices
      values := (RowBlock.ofRows (is.map list)).values } =
    .ok { m with rows := m.rows ++ is.map fun i => .ofEntries sense (value i) (list i) } := by
  have hz : ((List.replicate is.length sense).zip (is.map value)).zipIdx =
      is.zipIdx.map fun e => ((sense, value e.1), e.2) := by
    refine List.ext_getElem? fun k => ?_
    rw [List.getElem?_map, List.getElem?_zipIdx, List.getElem?_zipIdx]
    by_cases hk : k < is.length
    case pos => simp [hk]
    case neg =>
      have hk : is.length ≤ k := not_lt.mp hk
      rw [List.getElem?_eq_none (by simpa using hk), List.getElem?_eq_none hk]
      rfl
  have hrows : (((List.replicate is.length sense).zip (is.map value)).zipIdx.mapM
      fun e => m.newRow {
        senses := List.replicate is.length sense
        rhs := is.map value
        starts := (RowBlock.ofRows (is.map list)).starts
        colIndices := (RowBlock.ofRows (is.map list)).colIndices
        values := (RowBlock.ofRows (is.map list)).values } e.2 e.1.1 e.1.2) =
      .ok (is.map fun i => .ofEntries sense (value i) (list i)) := by
    rw [Lists.mapM_eq_ok_iff, hz, List.map_map]
    conv_rhs => rw [← List.zipIdx_map_fst 0 is, List.map_map, List.map_map]
    refine List.map_congr_left fun e hk => ?_
    obtain ⟨i, k⟩ := e
    have hk := List.mk_mem_zipIdx_iff_getElem?.mp hk
    exact newRow_eq (by rw [List.getElem?_map, hk]; rfl) (hm i (List.mem_of_getElem? hk))
  exact congrArg (· >>= fun rows => pure { m with rows := m.rows ++ rows }) hrows

end Model
end ConicProgram
