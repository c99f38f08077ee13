import Mathlib.Algebra.BigOperators.Ring.Finset
import ConicProgram.Proofs.Scalar.Exact
import ConicProgram.Proofs.Sparse.Entries

namespace ConicProgram

variable {K : Type} [Field K] [LinearOrder K] [FloorRing K] {es : List (Nat × K)} {z : Nat → K}
  {j n : Nat}

attribute [local instance] Scalar.exact

theorem foldl_add_eq_sum {β : Type} (xs : List β) (f : β → K) (first : K) :
    xs.foldl (fun acc x => acc + f x) first = first + (xs.map f).sum := by
  induction xs generalizing first
  case nil => simp
  case cons x xs hi => rw [List.foldl_cons, hi, List.map_cons, List.sum_cons, add_assoc]

theorem total_eq_sum (vs : List K) : total vs = vs.sum := by
  cases vs
  case nil => rfl
  case cons v vs =>
    rw [total, List.sum_cons]
    exact (foldl_add_eq_sum vs id v).trans (by rw [List.map_id])

theorem total_perm {vs ws : List K} (h : vs.Perm ws) : total vs = total ws := by
  rw [total_eq_sum, total_eq_sum, h.sum_eq]

theorem totalAt_cons (e : Nat × K) (es : List (Nat × K)) (j : Nat) :
    totalAt (e :: es) j = (if j = e.1 then e.2 else 0) + totalAt es j := by
  rw [totalAt, totalAt, total_eq_sum, total_eq_sum, List.filter_cons]
  by_cases hj : e.1 = j
  case pos => simp [hj]
  case neg => simp [hj, Ne.symm hj]

theorem totalAt_map_mul (d : K) :
    totalAt (es.map fun (k, v) => (k, d * v)) j = d * totalAt es j := by
  induction es
  case nil => simp [totalAt, total]
  case cons e es hi =>
    rw [List.map_cons, totalAt_cons, totalAt_cons, hi, mul_add, mul_ite, mul_zero]

-- The sum over all keys is one over the entries, however often a key occurs.
theorem sum_totalAt (hb : ∀ e ∈ es, e.1 < n) :
    ∑ j ∈ Finset.range n, totalAt es j * z j = (es.map fun e => e.2 * z e.1).sum := by
  induction es
  case nil => simp [totalAt, total]
  case cons e es hi =>
    have hk (j : Nat) : totalAt (e :: es) j * z j =
        (if j = e.1 then e.2 * z e.1 else 0) + totalAt es j * z j := by
      rw [totalAt_cons, add_mul, ite_mul, zero_mul]
      congr 1
      split
      case isTrue h => rw [h]
      case isFalse => rfl
    rw [Finset.sum_congr rfl fun j _ => hk j, Finset.sum_add_distrib, Finset.sum_ite_eq',
      if_pos (Finset.mem_range.mpr (hb e (List.mem_cons_self ..))),
      hi fun f hf => hb f (List.mem_cons_of_mem _ hf), List.map_cons, List.sum_cons]

theorem sum_entryAt (hd : (es.map (·.1)).Nodup) (hb : ∀ e ∈ es, e.1 < n) :
    ∑ j ∈ Finset.range n, entryAt es j * z j = (es.map fun e => e.2 * z e.1).sum := by
  rw [← sum_totalAt hb]
  exact Finset.sum_congr rfl fun j _ => by rw [totalAt_eq_entryAt hd]

-- The entries of a row are those of all columns, where the ones that are not stored count nothing.
theorem SparseMatrix.sum_row {a : SparseMatrix K} (h : a.checkFormat = .ok ()) (i : Nat)
    (z : Nat → K) : ((a.row i).map fun e => e.2 * z e.1).sum =
      ∑ j ∈ Finset.range a.cols, a.entry i j * z j := by
  have ⟨cs, ha, hf⟩ := exists_ofColumns h
  rw [ha, ← sum_entryAt (hf.row_increasing i).nodup fun e => hf.col_lt_of_mem_row]
  exact Finset.sum_congr rfl fun j _ => by rw [hf.entryAt_row]

end ConicProgram
