import Mathlib.Data.List.Sort
import ConicProgram.Proofs.Sparse.Filling
import ConicProgram.Proofs.Sparse.Totals
import ConicProgram.Proofs.Sparse.Triplets

namespace ConicProgram

theorem Increasing.eq_of_mem_iff {α : Type} {es fs : List (Nat × α)} (he : Increasing es)
    (hf : Increasing fs) (h : ∀ e, e ∈ es ↔ e ∈ fs) : es = fs := by
  have : Std.Irrefl fun e f : Nat × α => e.1 < f.1 := ⟨fun e => Nat.lt_irrefl e.1⟩
  have : Std.Antisymm fun e f : Nat × α => e.1 < f.1 :=
    ⟨fun _ _ h₁ h₂ => absurd (h₁.trans h₂) (Nat.lt_irrefl _)⟩
  exact List.Pairwise.eq_of_mem_iff he hf h

namespace Triplet

variable {α : Type} {ts us : List (Triplet α)}

theorem valuesAt_perm (h : ts.Perm us) (i j : Nat) : (valuesAt ts i j).Perm (valuesAt us i j) :=
  (h.filter _).map _

theorem valuesAt_eq_inRow (ts : List (Triplet α)) (i j : Nat) :
    valuesAt ts i j = ((inRow ts i).filter (·.1 = j)).map (·.2) := by
  induction ts
  case nil => rfl
  case cons t ts hi =>
    rw [valuesAt_cons, hi, inRow, inRow, List.filterMap_cons]
    by_cases hr : t.row = i <;> by_cases hc : t.col = j <;> simp [hr, hc]

end Triplet

namespace SparseMatrix

section Stored

variable {α : Type} {rows i j : Nat} {cs : List (List (Nat × α))} {a b : SparseMatrix α}

-- Each place is stored once at most.
theorem Columns.Fit.valuesAt_entries (h : Columns.Fit rows cs) :
    Triplet.valuesAt (ofColumns rows cs).entries i j = ((cs.getD j []).lookup i).toList := by
  have hk := filter_key (k := j) (h.row_increasing i).nodup
  rw [Triplet.valuesAt_eq_inRow, ← h.lookup_row, ← hk]
  rfl

theorem eq_of_mem_entries_iff (ha : a.checkFormat = .ok ()) (hb : b.checkFormat = .ok ())
    (hs : a.size = b.size) (h : ∀ t, t ∈ a.entries ↔ t ∈ b.entries) : a = b := by
  have ⟨cs, ha, hc⟩ := exists_ofColumns ha
  have ⟨ds, hb, hd⟩ := exists_ofColumns hb
  have ⟨hrows, hcols⟩ := Prod.mk.inj hs
  rw [ha, hb] at h hcols
  have hcd : cs = ds := by
    refine List.ext_getElem hcols fun j hj hj' => ?_
    refine (hc.increasing _ (List.getElem_mem hj)).eq_of_mem_iff
      (hd.increasing _ (List.getElem_mem hj')) fun (r, v) => ?_
    simpa [mem_entries_ofColumns, hj, hj'] using h ⟨r, j, v⟩
  rw [ha, hb, hrows, hcd]

end Stored

section Gathered

variable {α : Type} [Scalar α] {rows cols : Nat} {ts : List (Triplet α)} {a b : SparseMatrix α}

theorem Gathers.eq (ha : a.Gathers rows cols ts) (hb : b.Gathers rows cols ts) : a = b :=
  eq_of_mem_entries_iff ha.format hb.format (ha.size.trans hb.size.symm) fun t =>
    (ha.entries t).trans (hb.entries t).symm

theorem Gathers.inside (h : a.Gathers rows cols ts) : ∀ t ∈ ts, t.row < rows ∧ t.col < cols := by
  intro t ht
  have hv : Triplet.valuesAt ts t.row t.col ≠ [] := fun hn =>
    Triplet.valuesAt_eq_nil_iff.mp hn t ht ⟨rfl, rfl⟩
  have hs := inside_of_mem_entries h.format
    ((h.entries ⟨t.row, t.col, total (Triplet.valuesAt ts t.row t.col)⟩).mpr ⟨hv, rfl⟩)
  have ⟨hr, hc⟩ := Prod.mk.inj h.size
  rwa [hr, hc] at hs

theorem ofTriplets?_eq_some_iff : ofTriplets? rows cols ts = some a ↔ a.Gathers rows cols ts := by
  constructor
  case mp =>
    intro ha
    have hin := mt ofTriplets?_eq_none_iff.mpr (ha ▸ Option.some_ne_none a)
    have ⟨b, hb, h⟩ := exists_gathers (not_not.mp hin)
    cases ha.symm.trans hb
    exact h
  case mpr =>
    intro h
    have ⟨b, hb, hg⟩ := exists_gathers h.inside
    rw [hb, h.eq hg]

theorem gathers_of_perm_entries (h : a.checkFormat = .ok ()) (hp : ts.Perm a.entries) :
    a.Gathers a.rows a.cols ts := by
  refine ⟨rfl, h, fun t => ?_⟩
  have ⟨cs, ha, hf⟩ := exists_ofColumns h
  have hm : (cs.getD t.col []).lookup t.row = some t.value ↔ t ∈ a.entries :=
    ha ▸ hf.lookup_getD_eq_some_iff
  have hv : Triplet.valuesAt ts t.row t.col = ((cs.getD t.col []).lookup t.row).toList := by
    have hp := Triplet.valuesAt_perm hp t.row t.col
    rw [ha, hf.valuesAt_entries] at hp
    cases hl : (cs.getD t.col []).lookup t.row
    case none => exact (hl ▸ hp).eq_nil
    case some => exact (hl ▸ hp).eq_singleton
  rw [hv, ← hm]
  cases (cs.getD t.col []).lookup t.row <;> simp [total, eq_comm]

end Gathered

section Exact

variable {K : Type} [Field K] [LinearOrder K] [FloorRing K] {rows cols : Nat}
  {ts us : List (Triplet K)} {a : SparseMatrix K}

attribute [local instance] Scalar.exact

theorem Gathers.perm (h : a.Gathers rows cols ts) (hp : ts.Perm us) : a.Gathers rows cols us := by
  refine ⟨h.size, h.format, fun t => (h.entries t).trans ?_⟩
  have hv := Triplet.valuesAt_perm hp t.row t.col
  rw [total_perm hv, ne_eq, ne_eq, ← List.perm_nil, ← List.perm_nil, hv.congr_left]

theorem ofTriplets?_perm (hp : ts.Perm us) : ofTriplets? rows cols ts = ofTriplets? rows cols us :=
  Option.ext fun a => by
    rw [ofTriplets?_eq_some_iff, ofTriplets?_eq_some_iff]
    exact ⟨fun h => h.perm hp, fun h => h.perm hp.symm⟩

-- Only a triplet outside of the matrix is in the way. The matrix stores the cells of the triplets,
-- each with the sum of its values from left to right. The entries of a matrix give it back in any
-- order, and where nothing is rounded the order never counts.
theorem ofTriplets?_gathers {α : Type} [Scalar α] (rows cols : Nat) (ts : List (Triplet α))
    (a : SparseMatrix α) (us vs : List (Triplet K)) :
    (ofTriplets? rows cols ts = none ↔ ∃ t ∈ ts, rows ≤ t.row ∨ cols ≤ t.col) ∧
    (ofTriplets? rows cols ts = some a →
      a.size = (rows, cols) ∧ a.checkFormat = .ok () ∧ ∀ i j v, ⟨i, j, v⟩ ∈ a.entries ↔
        (∃ t ∈ ts, t.row = i ∧ t.col = j) ∧ v = total (Triplet.valuesAt ts i j)) ∧
    (a.checkFormat = .ok () → ts.Perm a.entries → ofTriplets? a.rows a.cols ts = some a) ∧
    (us.Perm vs → ofTriplets? rows cols us = ofTriplets? rows cols vs) := by
  refine ⟨?_, fun ha => ?_, fun ha hp => ?_, ofTriplets?_perm⟩
  · rw [ofTriplets?_eq_none_iff]
    simp only [not_forall, not_and_or, not_lt, exists_prop]
  · have h := ofTriplets?_eq_some_iff.mp ha
    refine ⟨h.size, h.format, fun i j v => (h.entries _).trans (and_congr_left' ?_)⟩
    rw [ne_eq, Triplet.valuesAt_eq_nil_iff]
    simp only [not_forall, not_not, exists_prop]
  · exact ofTriplets?_eq_some_iff.mpr (gathers_of_perm_entries ha hp)

-- At `(1, 0)` the second value is so large that the ones before and behind it are lost in rounding.
def scattered : List (Triplet Float) :=
  [⟨1, 0, 1⟩, ⟨0, 1, 3⟩, ⟨1, 0, 9007199254740992⟩, ⟨1, 0, 1⟩]

theorem ofTriplets?_gathers_scattered :
    ofTriplets? 2 1 scattered = none ∧
    ∃ a, ofTriplets? 2 2 scattered = some a ∧ a.checkFormat = .ok () ∧
      ⟨1, 0, 9007199254740992⟩ ∈ a.entries ∧ (∀ v, ⟨0, 0, v⟩ ∉ a.entries) ∧
      ofTriplets? a.rows a.cols a.entries.reverse = some a := by
  have hin : ¬∃ t ∈ scattered, 2 ≤ t.row ∨ 2 ≤ t.col := by decide
  have h (cols : Nat) (ts : List (Triplet Float)) (a : SparseMatrix Float) :=
    ofTriplets?_gathers (K := ℚ) 2 cols ts a [] []
  have ⟨a, ha⟩ := Option.ne_none_iff_exists'.mp (mt (h 2 scattered (zeros 2 2)).1.mp hin)
  have ⟨_, hf, hm⟩ := (h 2 scattered a).2.1 ha
  refine ⟨(h 1 scattered a).1.mpr (by decide), a, ha, hf, (hm 1 0 _).mpr (by decide),
    fun v hv => ?_, (h 2 a.entries.reverse a).2.2.1 hf (List.reverse_perm _)⟩
  exact absurd ((hm 0 0 v).mp hv).1 (by decide)

end Exact
end SparseMatrix
end ConicProgram
