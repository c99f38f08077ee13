import Mathlib.Order.Nat
import ConicProgram.Proofs.Sparse.Columns

namespace ConicProgram

def Increasing {α : Type} (es : List (Nat × α)) : Prop :=
  es.Pairwise (·.1 < ·.1)

-- A guard lets through what its condition does not hold of.
theorem ite_error_eq_ok_iff {ε β : Type} {c : Prop} [Decidable c] {e : ε} {x : Except ε β}
    {b : β} : (if c then .error e else x) = .ok b ↔ ¬c ∧ x = .ok b := by
  split <;> simp_all

namespace SparseMatrix

-- The entries of each column stand in increasing order of their rows.
structure Columns.Fit {α : Type} (rows : Nat) (cs : List (List (Nat × α))) : Prop where
  increasing : ∀ c ∈ cs, Increasing c
  below      : ∀ c ∈ cs, ∀ e ∈ c, e.1 < rows

section Format

variable {α : Type} {a : SparseMatrix α}

theorem consecutive_iff {r : Nat → Nat → Bool} {xs : List Nat} :
    Starts.consecutive r xs ↔ ∀ j x y, xs[j]? = some x → xs[j + 1]? = some y → r x y := by
  simp only [Starts.consecutive, List.all_eq_true, Prod.forall, List.mem_iff_getElem?,
    List.getElem?_zip_eq_some, List.getElem?_tail, forall_exists_index, and_imp]
  exact ⟨fun h j x y => h x y j, fun h x y j => h j x y⟩

theorem consecutive_le_iff {xs : List Nat} :
    Starts.consecutive (· ≤ ·) xs ↔ xs.Pairwise (· ≤ ·) := by
  rw [consecutive_iff, ← List.isChain_iff_pairwise, List.isChain_iff_getElem]
  constructor
  case mp =>
    intro h j hj
    simpa using h j _ _ (List.getElem?_eq_getElem _) (List.getElem?_eq_getElem hj)
  case mpr =>
    intro h j x y hx hy
    have ⟨_, hx⟩ := List.getElem?_eq_some_iff.mp hx
    have ⟨hj, hy⟩ := List.getElem?_eq_some_iff.mp hy
    simpa [hx, hy] using h j hj

-- Where the starts fit, each part ends inside of the entries.
theorem exists_of_fits {starts : List Nat} {positions entries j : Nat}
    (h : Starts.fits starts positions entries) (hj : j ≤ positions) :
    ∃ x, starts[j]? = some x ∧ x ≤ entries := by
  simp only [Starts.fits, Bool.and_eq_true, beq_iff_eq, Option.any_eq_true, decide_eq_true_eq] at h
  have ⟨⟨hl, hc⟩, last, hlast, hle⟩ := h
  have hj' : j < starts.length := by omega
  refine ⟨_, List.getElem?_eq_getElem hj', ?_⟩
  rcases hj.eq_or_lt with rfl | hlt
  case inl => exact (List.getElem?_eq_some_iff.mp hlast).2 ▸ hle
  case inr =>
    have ⟨hp, hlast⟩ := List.getElem?_eq_some_iff.mp hlast
    have hm := List.pairwise_iff_getElem.mp (consecutive_le_iff.mp hc) _ _ hj' hp hlt
    exact hm.trans (hlast ▸ hle)

theorem exists_span_of_fits {starts : List Nat} {positions entries j : Nat}
    (h : Starts.fits starts positions entries) (hj : j < positions) :
    ∃ first stop, starts[j]? = some first ∧ starts[j + 1]? = some stop ∧
      ∀ k ∈ Span.toList ⟨first, stop⟩, k < entries := by
  have ⟨first, hfirst, _⟩ := exists_of_fits h hj.le
  have ⟨stop, hstop, hle⟩ := exists_of_fits h (Nat.succ_le_of_lt hj)
  refine ⟨first, stop, hfirst, hstop, fun k hk => ?_⟩
  exact (Span.mem_def.mp (Span.mem_toList.mp hk)).2.trans_le hle

theorem pairwise_of_consecutive {xs : List Nat} (h : Starts.consecutive (· < ·) xs) :
    xs.Pairwise (· < ·) := by
  rw [← List.isChain_iff_pairwise, List.isChain_iff_getElem]
  intro j hj
  simpa using consecutive_iff.mp h j _ _ (List.getElem?_eq_getElem _) (List.getElem?_eq_getElem hj)

theorem consecutive_runningTotals (t : Nat) (counts : List Nat) :
    Starts.consecutive (· ≤ ·) (Starts.runningTotals t counts) := by
  rw [consecutive_iff]
  intro j x y hx hy
  simp only [Starts.getElem?_runningTotals, Option.ite_none_right_eq_some, Option.some.injEq]
    at hx hy
  rw [decide_eq_true_eq, ← hx.2, ← hy.2, List.take_add_one, List.sum_append]
  omega

-- What a valid format says, place by place.
structure Formatted (a : SparseMatrix α) : Prop where
  values  : a.rowIndices.length = a.values.length
  starts  : a.starts.length = a.cols + 1
  first   : a.starts.getD 0 0 = 0
  last    : a.starts.getD a.cols 0 = a.rowIndices.length
  rising  : ∀ j < a.cols, a.starts.getD j 0 ≤ a.starts.getD (j + 1) 0
  ordered : ∀ j < a.cols, (a.columnRows j).Pairwise (· < ·)
  below   : ∀ r ∈ a.rowIndices, r < a.rows

theorem formatted_of_checkFormat (h : a.checkFormat = .ok ()) : a.Formatted := by
  simp only [checkFormat, ite_error_eq_ok_iff, not_not, not_or, Bool.not_eq_true,
    Bool.not_eq_false'] at h
  have ⟨hv, ⟨hs, hl⟩, ⟨hz, hm⟩, hr, hb, _⟩ := h
  refine ⟨hv, hs, ?_, ?_, fun j hj => ?_, fun j hj => ?_, by simpa using hb⟩
  · rw [List.getD_eq_getElem?_getD, hz, Option.getD_some]
  · rw [List.getD_eq_getElem?_getD, hl, Option.getD_some]
  · have h₁ : j < a.starts.length := by omega
    have h₂ : j + 1 < a.starts.length := by omega
    have hc := consecutive_iff.mp hm j _ _ (List.getElem?_eq_getElem h₁)
      (List.getElem?_eq_getElem h₂)
    simpa [List.getD_eq_getElem?_getD, h₁, h₂] using hc
  · exact pairwise_of_consecutive (List.all_eq_true.mp hr j (List.mem_range.mpr hj))

namespace Formatted

variable (h : a.Formatted)
include h

theorem starts_mono {i j : Nat} (hij : i ≤ j) (hj : j ≤ a.cols) :
    a.starts.getD i 0 ≤ a.starts.getD j 0 := by
  induction j, hij using Nat.le_induction
  case base => exact Nat.le_refl _
  case succ j _ hi => exact (hi (by omega)).trans (h.rising j (by omega))

theorem start_le_of_mem {s : Nat} (hs : s ∈ a.starts) : s ≤ a.rowIndices.length := by
  have ⟨j, hj⟩ := List.mem_iff_getElem?.mp hs
  have ⟨hl, _⟩ := List.getElem?_eq_some_iff.mp hj
  have hm := h.starts_mono (i := j) (j := a.cols) (by have := h.starts; omega) le_rfl
  rwa [h.last, List.getD_eq_getElem?_getD, hj, Option.getD_some] at hm

theorem length_column {j : Nat} (hj : j < a.cols) :
    (a.column j).length = a.starts.getD (j + 1) 0 - a.starts.getD j 0 := by
  have := h.starts_mono (i := j + 1) hj le_rfl
  have := h.values
  have := h.last
  simp only [column, List.length_take, List.length_drop, List.length_zip]
  omega

theorem take_flatten {j : Nat} (hj : j ≤ a.cols) :
    ((List.range j).map a.column).flatten =
      (a.rowIndices.zip a.values).take (a.starts.getD j 0) := by
  induction j
  case zero => rw [h.first]; rfl
  case succ j hi =>
    have hr := h.rising j hj
    rw [List.range_succ, List.map_append, List.flatten_append, hi (by omega)]
    simp only [List.map_cons, List.map_nil, List.flatten_cons, List.flatten_nil, List.append_nil,
      column]
    rw [← List.take_add, Nat.add_sub_cancel' hr]

theorem offset_eq {j : Nat} (hj : j ≤ a.cols) :
    offset ((List.range a.cols).map a.column) j = a.starts.getD j 0 := by
  induction j
  case zero => rw [h.first]; rfl
  case succ j hi =>
    have hc : ((List.range a.cols).map a.column)[j]? = some (a.column j) := by
      simp [List.getElem?_range hj]
    rw [offset_succ hc, hi (by omega), h.length_column hj, Nat.add_sub_cancel' (h.rising j hj)]

theorem eq_ofColumns : a = ofColumns a.rows ((List.range a.cols).map a.column) := by
  have hz : ((List.range a.cols).map a.column).flatten = a.rowIndices.zip a.values := by
    rw [h.take_flatten le_rfl, h.last]
    exact List.take_of_length_le (by simp [h.values])
  have hs : a.starts = (ofColumns a.rows ((List.range a.cols).map a.column)).starts := by
    refine List.ext_getElem? fun j => ?_
    by_cases hj : j ≤ a.cols
    case pos =>
      rw [starts_ofColumns (by simpa using hj), h.offset_eq hj, List.getD_eq_getElem?_getD]
      rw [List.getElem?_eq_getElem (by rw [h.starts]; omega), Option.getD_some]
    case neg =>
      rw [List.getElem?_eq_none (by rw [h.starts]; omega),
        List.getElem?_eq_none (by rw [length_starts_ofColumns]; simp; omega)]
  have hr : a.rowIndices = (a.rowIndices.zip a.values).map (·.1) := by
    rw [List.map_fst_zip (by rw [h.values])]
  have hv : a.values = (a.rowIndices.zip a.values).map (·.2) := by
    rw [List.map_snd_zip (by rw [h.values])]
  rw [← hz] at hr hv
  rcases a with ⟨rows, cols, starts, rowIndices, values⟩
  simp only [ofColumns, SparseMatrix.mk.injEq, List.length_map, List.length_range]
  exact ⟨trivial, trivial, hs, hr, hv⟩

theorem fit : Columns.Fit a.rows ((List.range a.cols).map a.column) where
  increasing := by
    simp only [List.mem_map, List.mem_range, forall_exists_index, and_imp]
    rintro _ j hj rfl
    have hr : (a.column j).map (·.1) = a.columnRows j := by
      rw [column, columnRows, List.map_take, List.map_drop, List.map_fst_zip (by rw [h.values])]
    exact List.pairwise_map.mp (hr ▸ h.ordered j hj)
  below := by
    simp only [List.mem_map, List.mem_range, forall_exists_index, and_imp]
    rintro _ j hj rfl ⟨r, v⟩ he
    have hz := List.mem_of_mem_drop (List.mem_of_mem_take he)
    exact h.below r (List.of_mem_zip hz).1

end Formatted

-- A matrix of valid format is put together from its columns.
theorem exists_ofColumns (h : a.checkFormat = .ok ()) :
    ∃ cs, a = ofColumns a.rows cs ∧ Columns.Fit a.rows cs :=
  have h := formatted_of_checkFormat h
  ⟨_, h.eq_ofColumns, h.fit⟩

section Fit

variable {rows : Nat} {cs : List (List (Nat × α))} (h : Columns.Fit rows cs)
include h

theorem Columns.Fit.lt_of_mem_rowIndices : ∀ r ∈ (ofColumns rows cs).rowIndices, r < rows := by
  intro r hr
  obtain ⟨e, he, rfl⟩ := List.mem_map.mp hr
  obtain ⟨c, hc, he⟩ := List.mem_flatten.mp he
  exact h.below c hc e he

theorem Columns.Fit.row_lt_of_mem_entries : ∀ t ∈ (ofColumns rows cs).entries, t.row < rows := by
  intro t ht
  have ⟨c, hc, ht⟩ := mem_entries_ofColumns.mp ht
  exact h.below c (List.mem_of_getElem? hc) _ ht

-- Whatever is put together from such columns is of valid format.
theorem checkFormat_ofColumns : (ofColumns rows cs).checkFormat = .ok () := by
  have hc : ∀ j < cs.length, Starts.consecutive (· < ·) ((ofColumns rows cs).columnRows j) := by
    intro j hj
    have hc := List.getElem?_eq_getElem hj
    have hr : (ofColumns rows cs).columnRows j = cs[j].map (·.1) := by
      simp only [columnRows, List.getD_eq_getElem?_getD, starts_ofColumns hj.le,
        starts_ofColumns (Nat.succ_le_of_lt hj), offset_succ hc, Option.getD_some,
        rowIndices_ofColumns, Nat.add_sub_cancel_left]
      rw [← List.map_drop, ← List.map_take, take_drop_offset hc]
    have hi : (cs[j].map (·.1)).Pairwise (· < ·) :=
      List.pairwise_map.mpr (h.increasing _ (List.getElem_mem hj))
    rw [hr, consecutive_iff]
    intro k x y hx hy
    have ⟨_, hx⟩ := List.getElem?_eq_some_iff.mp hx
    have ⟨_, hy⟩ := List.getElem?_eq_some_iff.mp hy
    rw [decide_eq_true_eq, ← hx, ← hy]
    exact List.pairwise_iff_getElem.mp hi _ _ _ _ k.lt_succ_self
  simp only [checkFormat, ite_error_eq_ok_iff, not_not, not_or, Bool.not_eq_true,
    Bool.not_eq_false', and_true]
  refine ⟨?_, ⟨length_starts_ofColumns, ?_⟩, ⟨?_, consecutive_runningTotals _ _⟩, ?_, ?_⟩
  · rw [rowIndices_ofColumns, values_ofColumns, List.length_map, List.length_map]
  · rw [rowIndices_ofColumns, List.length_map]
    exact count?_ofColumns
  · rw [starts_ofColumns (Nat.zero_le _)]
    rfl
  · simpa using hc
  · exact List.all_eq_true.mpr fun r hr => decide_eq_true (h.lt_of_mem_rowIndices r hr)

end Fit

theorem inside_of_mem_entries {t : Triplet α} (h : a.checkFormat = .ok ())
    (ht : t ∈ a.entries) :
    t.row < a.rows ∧ t.col < a.cols := by
  have ⟨cs, ha, hf⟩ := exists_ofColumns h
  rw [ha] at ht
  have ⟨c, hc, _⟩ := mem_entries_ofColumns.mp ht
  have hcols : a.cols = cs.length := congrArg SparseMatrix.cols ha
  exact ⟨hf.row_lt_of_mem_entries t ht, hcols ▸ (List.getElem?_eq_some_iff.mp hc).1⟩

end Format
end SparseMatrix
end ConicProgram
