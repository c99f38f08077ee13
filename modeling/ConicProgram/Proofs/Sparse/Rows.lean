import ConicProgram.Proofs.Sparse.Entries
import ConicProgram.Proofs.Sparse.Filling
import ConicProgram.Proofs.Sparse.Starts

namespace ConicProgram

namespace RowBlock

variable {α : Type} {rows : List (List (Nat × α))} {r : List (Nat × α)} {i : Nat}

def ofRows (rows : List (List (Nat × α))) : RowBlock α where
  count := rows.length
  starts := Starts.runningTotals 0 (rows.map List.length)
  colIndices := rows.flatten.map (·.1)
  values := rows.flatten.map (·.2)

theorem length_starts_ofRows : (ofRows rows).starts.length = rows.length + 1 := by
  simp [ofRows, Starts.length_runningTotals]

theorem starts_zero_ofRows : (ofRows rows).starts[0]? = some 0 := by
  simp [ofRows, Starts.getElem?_runningTotals]

theorem pairwise_starts_ofRows : (ofRows rows).starts.Pairwise (· ≤ ·) :=
  SparseMatrix.consecutive_le_iff.mp (SparseMatrix.consecutive_runningTotals _ _)

theorem size?_ofRows : (ofRows rows).size? = some (ofRows rows).colIndices.length := by
  simp [size?, ofRows, Starts.getElem?_runningTotals, ← List.map_take, Function.comp_def]

theorem row?_ofRows (h : rows[i]? = some r) : (ofRows rows).row? i = some r := by
  have ⟨hi, _⟩ := List.getElem?_eq_some_iff.mp h
  have h₁ : (ofRows rows).starts[i]? = some (offset rows i) := by
    simp [ofRows, Starts.getElem?_runningTotals, offset, Nat.le_of_lt hi]
  have h₂ : (ofRows rows).starts[i + 1]? = some (offset rows i + r.length) := by
    rw [← offset_succ h]
    simp [ofRows, Starts.getElem?_runningTotals, offset, Nat.succ_le_of_lt hi]
  have h₃ : offset rows i + r.length ≤ rows.flatten.length := offset_add_length_le h
  have h₄ : ((ofRows rows).colIndices.zip (ofRows rows).values) = rows.flatten :=
    Lists.zip_fst_snd _
  have h₅ : offset rows i ≤ offset rows i + r.length ∧
      offset rows i + r.length ≤ (ofRows rows).colIndices.length ∧
      offset rows i + r.length ≤ (ofRows rows).values.length := by
    simp only [ofRows, List.length_map]
    omega
  simp only [row?, h₁, h₂, Option.bind_eq_bind, Option.bind_some, if_pos h₅, h₄,
    Nat.add_sub_cancel_left, take_drop_offset h, Option.pure_def]

end RowBlock

namespace SparseMatrix

variable {α : Type} {rows i j : Nat} {cs : List (List (Nat × α))}

theorem length_row (i : Nat) :
    ((ofColumns rows cs).row i).length = (ofColumns rows cs).rowIndices.count i := by
  rw [row_ofColumns, rowIndices_ofColumns, List.length_flatMap, List.count, List.countP_map,
    List.countP_flatten]
  conv_rhs => rw [← List.zipIdx_map_fst 0 cs, List.map_map]
  congr 1
  refine List.map_congr_left fun (c, j) _ => ?_
  rw [List.length_filterMap_eq_countP]
  refine List.countP_congr fun (r, v) _ => ?_
  by_cases h : r = i <;> simp [h]

theorem localize_eq_some_iff {s : Span} {e f : Nat × α} :
    s.localize e = some f ↔ e.1 ∈ s ∧ f = (e.1 - s.start, e.2) := by
  unfold Span.localize
  split <;> simp_all [eq_comm]

theorem Columns.Fit.localize (h : Columns.Fit rows cs) (s : Span) :
    Columns.Fit s.length (cs.map (·.filterMap s.localize)) where
  increasing := by
    simp only [List.mem_map, forall_exists_index, and_imp]
    rintro _ c hc rfl
    refine (h.increasing c hc).filterMap _ fun e f hef e' he f' hf => ?_
    have ⟨he, he'⟩ := localize_eq_some_iff.mp he
    have ⟨hf, hf'⟩ := localize_eq_some_iff.mp hf
    rw [Span.mem_def] at he hf
    simp only [he', hf']
    omega
  below := by
    simp only [List.mem_map, forall_exists_index, and_imp]
    rintro _ c hc rfl _ hf
    have ⟨e, _, he⟩ := List.mem_filterMap.mp hf
    have ⟨hm, he⟩ := localize_eq_some_iff.mp he
    rw [Span.mem_def] at hm
    simp only [he, Span.length]
    omega

variable [Scalar α]

-- The rows of a block are rows of the matrix.
theorem rowBlock?_ofColumns {s : Span} (h : Columns.Fit rows cs) (hw : rows ≤ Starts.wordSize)
    (h₁ : s.start ≤ s.stop) (h₂ : s.stop ≤ rows) :
    (ofColumns rows cs).rowBlock? s =
      some (.ofRows ((List.range s.length).map
        fun k => (ofColumns rows cs).row (s.start + k))) := by
  let sub := ofColumns s.length (cs.map (·.filterMap s.localize))
  let lists := Triplet.byRow s.length sub.entries
  have hfit : Columns.Fit s.length (cs.map (·.filterMap s.localize)) := h.localize s
  have hrows : (List.range s.length).map (fun k => (ofColumns rows cs).row (s.start + k)) = lists :=
    List.map_congr_left fun k hk => (row_localize (List.mem_range.mp hk)).symm
  have hlengths : (List.range s.length).map sub.rowIndices.count = lists.map List.length := by
    simp only [lists, Triplet.byRow, List.map_map]
    exact List.map_congr_left fun k _ => (length_row k).symm
  have hstarts : Starts.ofCoordinates (sub.rowIndices.map Int.ofNat) s.length =
      .ok (Starts.runningTotals 0 (lists.map List.length)) :=
    hlengths ▸ Starts.ofCoordinates_ofNat hfit.lt_of_mem_rowIndices (by unfold Span.length; omega)
  have hcount : sub.rowIndices.length = lists.flatten.length := by
    rw [List.length_flatten, ← hlengths, Starts.sum_count hfit.lt_of_mem_rowIndices]
  have hsize : sub.count? = some lists.flatten.length := by
    rw [count?_ofColumns, ← hcount, rowIndices_ofColumns, List.length_map]
  obtain ⟨filled, hfold, hc, hv⟩ :=
    RowBlock.Filling.exists_foldlM_put? hfit.row_lt_of_mem_entries rfl rfl
  have hl : lists.length = s.length := by simp [lists, Triplet.byRow]
  rw [hrows, rowBlock?, selectRows?_ofColumns h₁ h₂]
  simp only [Option.bind_eq_bind, Option.bind_some]
  rw [hstarts, hsize]
  simp only [Except.toOption, Option.bind_some]
  rw [hfold]
  simp only [Option.bind_some, Option.pure_def, RowBlock.ofRows, hc, hv, hl]
  rfl

end SparseMatrix
end ConicProgram
