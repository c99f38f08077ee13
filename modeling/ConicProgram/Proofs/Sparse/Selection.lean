import ConicProgram.Proofs.Sparse.Rows

namespace ConicProgram.SparseMatrix

variable {α : Type} {i j : Nat} {v : α} {a : SparseMatrix α}

theorem mem_row_iff : (j, v) ∈ a.row i ↔ ⟨i, j, v⟩ ∈ a.entries := by
  simp only [row, List.mem_filterMap, Option.ite_none_right_eq_some, Option.some.injEq,
    Prod.mk.injEq]
  constructor
  case mp =>
    rintro ⟨t, ht, rfl, rfl, rfl⟩
    exact ht
  case mpr => exact fun h => ⟨_, h, rfl, rfl, rfl⟩

section Restricted

variable [Scalar α] {s : Span} (h : a.checkFormat = .ok ()) (h₁ : s.start ≤ s.stop)
  (h₂ : s.stop ≤ a.rows)
include h h₁ h₂

-- The rows of the restricted matrix and those of the block are the ones of the matrix.
theorem exists_selectRows?_row : ∃ sub, a.selectRows? s = some sub ∧ sub.checkFormat = .ok () ∧
    sub.rows = s.length ∧ sub.cols = a.cols ∧ ∀ i < s.length, sub.row i = a.row (s.start + i) := by
  have ⟨cs, ha, hfit⟩ := exists_ofColumns h
  rw [ha]
  refine ⟨_, selectRows?_ofColumns h₁ h₂, checkFormat_ofColumns (hfit.localize s), rfl, ?_,
    fun i hi => row_localize hi⟩
  rw [cols_ofColumns, cols_ofColumns, List.length_map]

theorem exists_rowBlock?_row (hw : a.rows ≤ Starts.wordSize) :
    ∃ block, a.rowBlock? s = some block ∧ block.count = s.length ∧
      block.starts.length = s.length + 1 ∧ block.starts[0]? = some 0 ∧
      block.starts.Pairwise (· ≤ ·) ∧ block.size? = some block.colIndices.length ∧
      block.values.length = block.colIndices.length ∧
      ∀ i < s.length, block.row? i = some (a.row (s.start + i)) := by
  have ⟨cs, ha, hfit⟩ := exists_ofColumns h
  have hb := rowBlock?_ofColumns hfit hw h₁ h₂
  rw [← ha] at hb
  let rows := (List.range s.length).map fun k => a.row (s.start + k)
  have hl : rows.length = s.length := by simp [rows]
  refine ⟨.ofRows rows, hb, hl, ?_, RowBlock.starts_zero_ofRows, RowBlock.pairwise_starts_ofRows,
    RowBlock.size?_ofRows, ?_, fun i hi => RowBlock.row?_ofRows ?_⟩
  · rw [RowBlock.length_starts_ofRows, hl]
  · simp only [RowBlock.ofRows, List.length_map]
  · simp [rows, hi]

theorem exists_selectRows? : ∃ sub, a.selectRows? s = some sub ∧ sub.checkFormat = .ok () ∧
    sub.rows = s.length ∧ sub.cols = a.cols ∧
    ∀ i j v, ⟨i, j, v⟩ ∈ sub.entries ↔ i < s.length ∧ ⟨s.start + i, j, v⟩ ∈ a.entries := by
  have ⟨sub, hsub, hf, hrows, hcols, hrow⟩ := exists_selectRows?_row h h₁ h₂
  refine ⟨sub, hsub, hf, hrows, hcols, fun i j v => ?_⟩
  constructor
  case mp =>
    intro ht
    have hi : i < s.length := hrows ▸ (inside_of_mem_entries hf ht).1
    exact ⟨hi, mem_row_iff.mp (hrow i hi ▸ mem_row_iff.mpr ht)⟩
  case mpr =>
    rintro ⟨hi, ht⟩
    exact mem_row_iff.mp (hrow i hi ▸ mem_row_iff.mpr ht)

theorem exists_rowBlock? (hw : a.rows ≤ Starts.wordSize) :
    ∃ block, a.rowBlock? s = some block ∧ block.count = s.length ∧
      block.starts.length = s.length + 1 ∧ block.starts[0]? = some 0 ∧
      block.starts.Pairwise (· ≤ ·) ∧ block.size? = some block.colIndices.length ∧
      block.values.length = block.colIndices.length ∧
      ∀ i < s.length, ∃ es, block.row? i = some es ∧ Increasing es ∧
        ∀ j v, (j, v) ∈ es ↔ ⟨s.start + i, j, v⟩ ∈ a.entries := by
  have ⟨block, hb, hcount, hl, h₀, hp, hsize, hv, hrow⟩ := exists_rowBlock?_row h h₁ h₂ hw
  have ⟨cs, ha, hfit⟩ := exists_ofColumns h
  exact ⟨block, hb, hcount, hl, h₀, hp, hsize, hv, fun i hi =>
    ⟨_, hrow i hi, ha ▸ hfit.row_increasing _, fun j v => mem_row_iff⟩⟩

end Restricted

-- What is stored in the rows of a span is what the restricted matrix stores, and what the block of
-- these rows yields row by row. Indices are machine words, which bounds the number of rows.
theorem restriction_lossless [Scalar α] (a : SparseMatrix α) (s : Span)
    (h : a.checkFormat = .ok ()) (hw : a.rows ≤ Starts.wordSize) (h₁ : s.start ≤ s.stop)
    (h₂ : s.stop ≤ a.rows) :
    (∃ sub, a.selectRows? s = some sub ∧ sub.checkFormat = .ok () ∧ sub.rows = s.length ∧
      sub.cols = a.cols ∧
      ∀ i j v, ⟨i, j, v⟩ ∈ sub.entries ↔ i < s.length ∧ ⟨s.start + i, j, v⟩ ∈ a.entries) ∧
    ∃ block, a.rowBlock? s = some block ∧ block.count = s.length ∧
      block.starts.length = s.length + 1 ∧ block.starts[0]? = some 0 ∧
      block.starts.Pairwise (· ≤ ·) ∧ block.size? = some block.colIndices.length ∧
      block.values.length = block.colIndices.length ∧
      ∀ i < s.length, ∃ es, block.row? i = some es ∧ Increasing es ∧
        ∀ j v, (j, v) ∈ es ↔ ⟨s.start + i, j, v⟩ ∈ a.entries :=
  ⟨exists_selectRows? h h₁ h₂, exists_rowBlock? h h₁ h₂ hw⟩

-- Rows `[1 0 2]`, `[0 3 0]` and `[4 0 6]`, with the zero of the first row stored.
def square : SparseMatrix Float := ⟨3, 3, [0, 2, 4, 6], [0, 2, 0, 1, 0, 2], [1, 4, 0, 3, 2, 6]⟩

theorem restriction_lossless_square :
    ∃ sub block, square.selectRows? ⟨1, 3⟩ = some sub ∧ ⟨1, 2, 6⟩ ∈ sub.entries ∧
      square.rowBlock? ⟨1, 3⟩ = some block ∧ block.size? = some block.colIndices.length ∧
      ∃ es, block.row? 1 = some es ∧ Increasing es ∧ (2, 6) ∈ es ∧ (0, 1) ∉ es := by
  have hf : square.checkFormat = .ok () := by decide
  have ⟨⟨sub, hsub, _, _, _, hm⟩, block, hblock, _, _, _, _, hsize, _, hrows⟩ :=
    restriction_lossless square ⟨1, 3⟩ hf (by decide) (by decide) (by decide)
  have ⟨es, hrow, hi, he⟩ := hrows 1 (by decide)
  refine ⟨sub, block, hsub, (hm 1 2 6).mpr (by decide), hblock, hsize, es, hrow, hi,
    (he 2 6).mpr (by decide), fun h => ?_⟩
  exact absurd ((he 0 1).mp h) (by decide)

end ConicProgram.SparseMatrix
