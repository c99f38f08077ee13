import Mathlib.Algebra.BigOperators.Ring.Finset
import ConicProgram.Proofs.Sparse.Gathering
import ConicProgram.Proofs.Sparse.Selection
import ConicProgram.Sparse.Product

namespace ConicProgram

open Finset (range)

variable {K : Type} [Field K] [LinearOrder K] [FloorRing K]

attribute [local instance] Scalar.exact

namespace Triplet

variable {ts : List (Triplet K)} {z : Nat → K} {i : Nat}

theorem totalAt_products (scale : K) :
    totalAt (ts.map fun t => (t.row, scale * t.value * z t.col)) i =
      scale * ((inRow ts i).map fun e => e.2 * z e.1).sum := by
  rw [inRow_eq_map_filter]
  induction ts
  case nil => simp [totalAt, total]
  case cons t ts hi =>
    rw [List.map_cons, totalAt_cons, hi]
    by_cases hr : t.row = i
    case pos => simp [hr, mul_add, mul_assoc]
    case neg => simp [hr, Ne.symm hr]

end Triplet

namespace SparseMatrix

variable {rows cols : Nat} {cs : List (List (Nat × K))} {x y : List K} {scale keep : K}
  {a : SparseMatrix K} {es : List (Nat × K)}

-- A term that is added to its row beforehand counts with those that are to come.
theorem map_totalAt_modify (y : List K) (r : Nat) (t : K) (es : List (Nat × K)) :
    (y.modify r (· + t)).zipIdx.map (fun e => e.1 + totalAt es e.2) =
      y.zipIdx.map fun e => e.1 + totalAt ((r, t) :: es) e.2 := by
  refine List.ext_getElem? fun i => ?_
  simp only [List.getElem?_map, List.getElem?_zipIdx, List.getElem?_modify, Nat.zero_add]
  by_cases hi : r = i
  case pos => cases y[i]? <;> simp [hi, totalAt_cons, add_assoc]
  case neg => cases y[i]? <;> simp [hi, totalAt_cons, Ne.symm hi]

theorem foldlM_add (h : ∀ e ∈ es, e.1 < y.length) :
    es.foldlM (fun y (r, t) => if r < y.length then some (y.modify r (· + t)) else none) y =
      some (y.zipIdx.map fun e => e.1 + totalAt es e.2) := by
  induction es generalizing y
  case nil =>
    have hz (i : Nat) : totalAt ([] : List (Nat × K)) i = 0 := rfl
    simp [hz]
  case cons e es hi =>
    obtain ⟨r, t⟩ := e
    have ⟨hr, hes⟩ := List.forall_mem_cons.mp h
    simp only [List.foldlM_cons, if_pos hr, Option.bind_eq_bind, Option.bind_some]
    rw [hi (by simpa using hes), map_totalAt_modify]

def terms (a : SparseMatrix K) (x : List K) (scale : K) : List (Nat × K) :=
  a.entries.map fun t => (t.row, scale * t.value * x.getD t.col 0)

theorem addProduct?_ofColumns_eq (hx : x.length = cs.length) (hy : y.length = rows) :
    (ofColumns rows cs).addProduct? y x scale keep =
      ((ofColumns rows cs).terms x scale).foldlM
        (fun y (r, t) => if r < y.length then some (y.modify r (· + t)) else none)
        (y.map (· * keep)) := by
  have hc : ∀ e ∈ x.zipIdx, (do
      let c ← (ofColumns rows cs).column? e.2
      return c.map fun t => (t.1, scale * t.2 * e.1)) =
        some ((cs.getD e.2 []).map fun t => (t.1, scale * t.2 * e.1)) := by
    intro e he
    have hj := (List.getElem?_eq_some_iff.mp (List.mem_zipIdx_iff_getElem?.mp he)).1
    rw [hx] at hj
    simp [column?_ofColumns (List.getElem?_eq_getElem hj), hj]
  have ht : (x.zipIdx.map fun e =>
      (cs.getD e.2 []).map fun t => (t.1, scale * t.2 * e.1)).flatten =
        (ofColumns rows cs).terms x scale := by
    rw [terms, entries, List.map_flatMap, List.flatMap_def, cols_ofColumns, ← hx]
    refine congrArg _ (Lists.map_range_length (g := fun xj j =>
      (cs.getD j []).map fun t => (t.1, scale * t.2 * xj)) fun j xj hj => ?_).symm
    simp [column_ofColumns_eq, List.getD_eq_getElem?_getD, hj]
  rw [addProduct?, Lists.mapM_eq_some_of_forall hc, ← ht]
  simp [hx, hy, guard]

theorem addProduct?_ofColumns (h : Columns.Fit rows cs) (hx : x.length = cs.length)
    (hy : y.length = rows) : (ofColumns rows cs).addProduct? y x scale keep =
      some ((List.range rows).map fun i => keep * y.getD i 0 +
        scale * (((ofColumns rows cs).row i).map fun e => e.2 * x.getD e.1 0).sum) := by
  have hr : ∀ e ∈ (ofColumns rows cs).terms x scale, e.1 < (y.map (· * keep)).length := by
    simp only [terms, List.forall_mem_map, List.length_map, hy]
    exact h.row_lt_of_mem_entries
  have ht (i : Nat) : totalAt ((ofColumns rows cs).terms x scale) i =
      scale * (((ofColumns rows cs).row i).map fun e => e.2 * x.getD e.1 0).sum :=
    Triplet.totalAt_products (z := fun j => x.getD j 0) scale
  rw [addProduct?_ofColumns_eq hx hy, foldlM_add hr]
  subst hy
  refine congrArg some (List.ext_getElem? fun i => ?_)
  by_cases hi : i < y.length <;> simp [hi, ht, mul_comm keep]

theorem addProduct?_eq (h : a.checkFormat = .ok ()) (hx : x.length = a.cols)
    (hy : y.length = a.rows) : a.addProduct? y x scale keep = some ((List.range a.rows).map fun i =>
      keep * y.getD i 0 + scale * ((a.row i).map fun e => e.2 * x.getD e.1 0).sum) := by
  have ⟨cs, ha, hf⟩ := exists_ofColumns h
  rw [ha] at hx ⊢
  exact addProduct?_ofColumns hf hx hy

-- Triplets at one cell count alike, whether they are added up before or after.
theorem Gathers.sum_row {ts : List (Triplet K)} (h : a.Gathers rows cols ts) (i : Nat)
    (z : Nat → K) : ((a.row i).map fun e => e.2 * z e.1).sum =
      ((ts.filter (·.row = i)).map fun t => t.value * z t.col).sum := by
  have hc : a.cols = cols := (Prod.mk.inj h.size).2
  have hb : ∀ e ∈ Triplet.inRow ts i, e.1 < cols := by
    rw [Triplet.inRow_eq_map_filter, List.forall_mem_map]
    exact fun t ht => (h.inside t (List.mem_of_mem_filter ht)).2
  have he (j : Nat) : a.entry i j = totalAt (Triplet.inRow ts i) j := by
    rw [h.entry_eq, Triplet.valuesAt_eq_inRow, totalAt]
  rw [SparseMatrix.sum_row h.format, hc, Finset.sum_congr rfl fun j _ => by rw [he],
    sum_totalAt hb, Triplet.inRow_eq_map_filter, List.map_map]
  rfl

-- The rows of a span yield what they yield in the whole matrix.
theorem exists_selected {s : Span} (h : a.checkFormat = .ok ()) (hw : a.rows ≤ Starts.wordSize)
    (h₁ : s.start ≤ s.stop) (h₂ : s.stop ≤ a.rows) (hx : x.length = a.cols)
    (hy : y.length = a.rows) :
    ∃ sub block, a.selectRows? s = some sub ∧ a.rowBlock? s = some block ∧
      ∀ v : List K, v.length = s.length → ∃ part whole,
        sub.addProduct? v x 1 0 = some part ∧ a.addProduct? y x 1 0 = some whole ∧
        part.length = s.length ∧ ∀ i < s.length, part[i]? = whole[s.start + i]? ∧
          ∃ es, block.row? i = some es ∧
            part[i]? = some (es.map fun e => e.2 * x.getD e.1 0).sum := by
  have ⟨sub, hsub, hf, hrows, hcols, hrow⟩ := exists_selectRows?_row h h₁ h₂
  have ⟨block, hblock, _, _, _, _, _, _, hes⟩ := exists_rowBlock?_row h h₁ h₂ hw
  refine ⟨sub, block, hsub, hblock, fun v hv => ?_⟩
  refine ⟨_, _, addProduct?_eq hf (hx.trans hcols.symm) (hv.trans hrows.symm),
    addProduct?_eq h hx hy, by simp [hrows], fun i hi => ?_⟩
  have hi' : s.start + i < a.rows := by
    unfold Span.length at hi
    omega
  simp only [List.getElem?_map, List.getElem?_range (hrows ▸ hi), List.getElem?_range hi',
    Option.map_some, hrow i hi, zero_mul, zero_add, one_mul, true_and]
  exact ⟨_, hes i hi, rfl⟩

-- A product adds to each place what its row yields. It does not matter whether the row is read off
-- the columns, off a part of the matrix, off its block of rows or off the triplets it came from.
-- Indices are machine words, which bounds the number of rows.
theorem addProduct?_agrees (scale keep : K) :
    (∀ (a : SparseMatrix K) (x y : List K), a.checkFormat = .ok () → x.length = a.cols →
      y.length = a.rows →
      a.addProduct? y x scale keep = some ((List.range a.rows).map fun i =>
        keep * y.getD i 0 + scale * ∑ j ∈ range a.cols, a.entry i j * x.getD j 0) ∧
      (a.rows ≤ Starts.wordSize → ∀ s : Span, s.start ≤ s.stop → s.stop ≤ a.rows →
        ∃ sub block, a.selectRows? s = some sub ∧ a.rowBlock? s = some block ∧
          ∀ v : List K, v.length = s.length → ∃ part whole,
            sub.addProduct? v x 1 0 = some part ∧ a.addProduct? y x 1 0 = some whole ∧
            part.length = s.length ∧ ∀ i < s.length, part[i]? = whole[s.start + i]? ∧
              ∃ es, block.row? i = some es ∧
                part[i]? = some (es.map fun e => e.2 * x.getD e.1 0).sum)) ∧
    ∀ (rows cols : Nat) (ts : List (Triplet K)) (x y : List K),
      (∀ t ∈ ts, t.row < rows ∧ t.col < cols) → x.length = cols → y.length = rows →
      ∃ a, ofTriplets? rows cols ts = some a ∧
        a.addProduct? y x scale keep = some ((List.range rows).map fun i => keep * y.getD i 0 +
          scale * ((ts.filter (·.row = i)).map fun t => t.value * x.getD t.col 0).sum) := by
  refine ⟨fun a x y h hx hy => ⟨?_, fun hw s h₁ h₂ => exists_selected h hw h₁ h₂ hx hy⟩,
    fun rows cols ts x y hin hx hy => ?_⟩
  · rw [addProduct?_eq h hx hy]
    exact congrArg some (List.map_congr_left fun i _ =>
      congrArg (_ + scale * ·) (sum_row h i fun j => x.getD j 0))
  · have ⟨a, ha, hg⟩ := exists_gathers hin
    have ⟨hrows, hcols⟩ := Prod.mk.inj hg.size
    refine ⟨a, ha, ?_⟩
    rw [addProduct?_eq hg.format (hx.trans hcols.symm) (hy.trans hrows.symm), hrows]
    exact congrArg some (List.map_congr_left fun i _ =>
      congrArg (_ + scale * ·) (hg.sum_row i fun j => x.getD j 0))

-- Rows `[1 0]`, `[0 3]` and `[2 4]`.
def slab : SparseMatrix ℚ := ⟨3, 2, [0, 2, 4], [0, 2, 1, 2], [1, 2, 3, 4]⟩

theorem addProduct?_agrees_slab :
    slab.checkFormat = .ok () ∧ slab.addProduct? [1, 1, 1] [10, 1] 2 (-1) = some [19, 5, 47] ∧
    (∃ sub block part whole es, slab.selectRows? ⟨1, 3⟩ = some sub ∧
      slab.rowBlock? ⟨1, 3⟩ = some block ∧ sub.addProduct? [7, 7] [10, 1] 1 0 = some part ∧
      slab.addProduct? [1, 1, 1] [10, 1] 1 0 = some whole ∧ part[1]? = whole[2]? ∧
      block.row? 1 = some es ∧ part[1]? = some (es.map fun e => e.2 * [10, 1].getD e.1 0).sum) ∧
    ∃ a, ofTriplets? 2 2 [⟨1, 0, 3⟩, ⟨0, 1, 1⟩, ⟨1, 0, 4⟩] = some a ∧
      a.addProduct? [1, 1] [2, 5] 2 (-1) = some [(9 : ℚ), 27] := by
  have hf : slab.checkFormat = .ok () := by decide
  have ⟨hp, ht⟩ := addProduct?_agrees (2 : ℚ) (-1)
  have ⟨hp, hs⟩ := hp slab [10, 1] [1, 1, 1] hf rfl rfl
  have ⟨sub, block, hsub, hblock, hv⟩ := hs (by decide) ⟨1, 3⟩ (by decide) (by decide)
  have ⟨part, whole, hpart, hwhole, _, hi⟩ := hv [7, 7] rfl
  have ⟨hw, es, hes, hsum⟩ := hi 1 (by decide)
  have ⟨a, ha, hta⟩ := ht 2 2 [⟨1, 0, 3⟩, ⟨0, 1, 1⟩, ⟨1, 0, 4⟩] [2, 5] [1, 1] (by decide) rfl rfl
  exact ⟨hf, hp.trans (by decide +kernel),
    ⟨sub, block, part, whole, es, hsub, hblock, hpart, hwhole, hw, hes, hsum⟩,
    a, ha, hta.trans (by decide +kernel)⟩

end SparseMatrix
end ConicProgram
