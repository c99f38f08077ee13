import Mathlib.Data.List.Nodup
import ConicProgram.Proofs.Sparse.Format

namespace ConicProgram

section Lookup

variable {α β : Type} {e : Nat × α} {es : List (Nat × α)} {k : Nat} {v : α}

theorem Increasing.tail (h : Increasing (e :: es)) : Increasing es :=
  (List.pairwise_cons.mp h).2

theorem Increasing.head_lt (h : Increasing (e :: es)) {f : Nat × α} (hf : f ∈ es) : e.1 < f.1 :=
  (List.pairwise_cons.mp h).1 f hf

-- What lies below the first row lies below all of them.
theorem Increasing.lt_of_lt_head (h : Increasing (e :: es)) {k : Nat} (hk : k < e.1) :
    ∀ f ∈ e :: es, k < f.1 :=
  List.forall_mem_cons.mpr ⟨hk, fun _ hf => hk.trans (h.head_lt hf)⟩

theorem Increasing.nodup (h : Increasing es) : (es.map (·.1)).Nodup :=
  List.pairwise_map.mpr <| h.imp Nat.ne_of_lt

theorem lookup_eq_none_iff : es.lookup k = none ↔ ∀ e ∈ es, e.1 ≠ k := by
  simp only [List.lookup_eq_none_iff, bne_iff_ne, ne_comm]

theorem mem_of_lookup (h : es.lookup k = some v) : (k, v) ∈ es := by
  have ⟨l₁, l₂, he, _⟩ := List.lookup_eq_some_iff.mp h
  simp [he]

theorem lookup_cons_eq : (e :: es).lookup k = if k = e.1 then some e.2 else es.lookup k := by
  rw [List.lookup_cons]
  by_cases h : k = e.1
  case pos => simp [h]
  case neg => rw [beq_eq_false_iff_ne.mpr h, if_neg h]

-- Where no key occurs twice an entry is found under its key.
theorem lookup_eq_some_iff (h : (es.map (·.1)).Nodup) : es.lookup k = some v ↔ (k, v) ∈ es := by
  refine ⟨mem_of_lookup, fun hm => ?_⟩
  induction es
  case nil => cases hm
  case cons e es hi =>
    have ⟨hn, hd⟩ := List.nodup_cons.mp h
    rw [lookup_cons_eq]
    rcases List.mem_cons.mp hm with rfl | hm
    case inl => simp
    case inr =>
      have hne : k ≠ e.1 := by
        rintro rfl
        exact hn (List.mem_map.mpr ⟨_, hm, rfl⟩)
      rw [if_neg hne]
      exact hi hd hm

theorem filter_key (h : (es.map (·.1)).Nodup) :
    (es.filter (·.1 = k)).map (·.2) = (es.lookup k).toList := by
  induction es
  case nil => rfl
  case cons e es hi =>
    have ⟨hn, hd⟩ := List.nodup_cons.mp h
    by_cases he : e.1 = k
    case pos =>
      subst he
      have hf : es.filter (·.1 = e.1) = [] := by
        rw [List.filter_eq_nil_iff]
        exact fun f hf hk => hn (List.mem_map.mpr ⟨f, hf, of_decide_eq_true hk⟩)
      simp [hf, lookup_cons_eq]
    case neg => simp [he, hi hd, lookup_cons_eq, Ne.symm he]

theorem lookup_map (f : α → β) :
    (es.map fun (j, v) => (j, f v)).lookup k = (es.lookup k).map f := by
  induction es
  case nil => rfl
  case cons e es hi =>
    rw [List.map_cons, lookup_cons_eq, lookup_cons_eq, hi]
    by_cases hk : k = e.1 <;> simp [hk]

variable [Scalar α]

def entryAt (es : List (Nat × α)) (k : Nat) : α :=
  (es.lookup k).getD 0

theorem entryAt_cons : entryAt (e :: es) k = if k = e.1 then e.2 else entryAt es k := by
  unfold entryAt
  rw [lookup_cons_eq]
  split <;> rfl

theorem entryAt_of_forall_ne (h : ∀ e ∈ es, e.1 ≠ k) : entryAt es k = 0 := by
  rw [entryAt, lookup_eq_none_iff.mpr h, Option.getD_none]

theorem Increasing.entryAt_of_lt (h : Increasing es) (hk : ∀ e ∈ es.head?, k < e.1) :
    entryAt es k = 0 := by
  refine entryAt_of_forall_ne fun f hf => ?_
  cases es
  case nil => cases hf
  case cons e es => exact Nat.ne_of_gt (h.lt_of_lt_head (hk e rfl) f hf)

-- What the numbers add up to, from left to right.
def total : List α → α
  | [] => 0
  | v :: vs => vs.foldl (· + ·) v

-- What the entries under a key add up to.
def totalAt (es : List (Nat × α)) (k : Nat) : α :=
  total ((es.filter (·.1 = k)).map (·.2))

theorem totalAt_eq_entryAt (h : (es.map (·.1)).Nodup) : totalAt es k = entryAt es k := by
  rw [totalAt, filter_key h, entryAt]
  cases es.lookup k <;> rfl

end Lookup

namespace SparseMatrix

variable {α : Type} {rows i j : Nat} {cs : List (List (Nat × α))} {c : List (Nat × α)} {v : α}

theorem column_eq_nil (h : cs.length ≤ j) : (ofColumns rows cs).column j = [] := by
  have hs : (ofColumns rows cs).starts.getD (j + 1) 0 = 0 := by
    rw [List.getD_eq_getElem?_getD, List.getElem?_eq_none, Option.getD_none]
    rw [length_starts_ofColumns]
    omega
  rw [column, hs, Nat.zero_sub, List.take_zero]

theorem column_ofColumns_eq : (ofColumns rows cs).column j = cs.getD j [] := by
  rw [List.getD_eq_getElem?_getD]
  cases h : cs[j]?
  case none => exact column_eq_nil (List.getElem?_eq_none_iff.mp h)
  case some => exact column_ofColumns h

theorem filterMap_key (h : Increasing c) :
    (c.filterMap fun (r, v) => if r = i then some (j, v) else none) =
    ((c.lookup i).map (j, ·)).toList := by
  induction c
  case nil => rfl
  case cons e c hi =>
    by_cases he : e.1 = i
    case pos =>
      subst he
      have hn : (c.filterMap fun (r, v) => if r = e.1 then some (j, v) else none) = [] := by
        rw [List.filterMap_eq_nil_iff]
        exact fun f hf => if_neg (Nat.ne_of_gt (h.head_lt hf))
      simp [hn, lookup_cons_eq]
    case neg => simp [he, hi h.tail, lookup_cons_eq, Ne.symm he]

namespace Columns.Fit

variable (h : Columns.Fit rows cs)
include h

-- A row holds one entry for each column that has an entry in it.
theorem row_eq (i : Nat) : (ofColumns rows cs).row i =
    cs.zipIdx.filterMap fun (c, j) => (c.lookup i).map (j, ·) := by
  rw [row_ofColumns, List.filterMap_eq_flatMap_toList]
  refine List.flatMap_congr fun (c, j) hc => ?_
  exact filterMap_key (h.increasing c (List.fst_mem_of_mem_zipIdx hc))

theorem increasing_getD (j : Nat) : Increasing (cs.getD j []) := by
  rw [List.getD_eq_getElem?_getD]
  cases hc : cs[j]?
  case none => exact List.Pairwise.nil
  case some c => exact h.increasing c (List.mem_of_getElem? hc)

theorem mem_row :
    (j, v) ∈ (ofColumns rows cs).row i ↔ ∃ c, cs[j]? = some c ∧ c.lookup i = some v := by
  rw [h.row_eq]
  simp only [List.mem_filterMap, Prod.exists, Option.map_eq_some_iff, Prod.mk.injEq,
    List.mk_mem_zipIdx_iff_getElem?]
  exact ⟨fun ⟨c, _, hc, _, hl, hj, hv⟩ => ⟨c, hj ▸ hc, hv ▸ hl⟩,
    fun ⟨c, hc, hl⟩ => ⟨c, j, hc, v, hl, rfl, rfl⟩⟩

theorem row_increasing (i : Nat) : Increasing ((ofColumns rows cs).row i) := by
  rw [h.row_eq]
  refine (Lists.pairwise_zipIdx cs).filterMap _ fun (c, j) (d, k) hjk e he f hf => ?_
  have ⟨_, _, he⟩ := Option.map_eq_some_iff.mp he
  have ⟨_, _, hf⟩ := Option.map_eq_some_iff.mp hf
  simpa [← he, ← hf] using hjk

theorem col_lt_of_mem_row {e : Nat × α} (he : e ∈ (ofColumns rows cs).row i) : e.1 < cs.length := by
  have ⟨c, hc, _⟩ := h.mem_row.mp he
  exact (List.getElem?_eq_some_iff.mp hc).1

theorem lookup_getD_eq_some_iff :
    (cs.getD j []).lookup i = some v ↔ ⟨i, j, v⟩ ∈ (ofColumns rows cs).entries := by
  rw [lookup_eq_some_iff (h.increasing_getD j).nodup, mem_entries_ofColumns,
    List.getD_eq_getElem?_getD]
  cases cs[j]? <;> simp

theorem lookup_row : ((ofColumns rows cs).row i).lookup j = (cs.getD j []).lookup i := by
  refine Option.ext fun v => ?_
  rw [lookup_eq_some_iff (h.row_increasing i).nodup, h.mem_row, List.getD_eq_getElem?_getD]
  cases cs[j]? <;> simp

end Columns.Fit

variable [Scalar α]

def entry (a : SparseMatrix α) (i j : Nat) : α :=
  entryAt (a.column j) i

-- Two matrices of one size hold the same numbers, whether zeros are stored or not.
structure Agrees (a b : SparseMatrix α) : Prop where
  rows    : a.rows = b.rows
  cols    : a.cols = b.cols
  entries : ∀ i j, a.entry i j == b.entry i j

theorem entry_ofColumns : (ofColumns rows cs).entry i j = entryAt (cs.getD j []) i := by
  rw [entry, column_ofColumns_eq]

theorem Columns.Fit.entryAt_row (h : Columns.Fit rows cs) :
    entryAt ((ofColumns rows cs).row i) j = (ofColumns rows cs).entry i j := by
  rw [entry_ofColumns, entryAt, entryAt, h.lookup_row]

theorem entry_eq_zero_of_cols_le (h : cs.length ≤ j) : (ofColumns rows cs).entry i j = 0 := by
  rw [entry, column_eq_nil h]
  rfl

theorem Columns.Fit.entry_eq_zero_of_rows_le (h : Columns.Fit rows cs) (hi : rows ≤ i) :
    (ofColumns rows cs).entry i j = 0 := by
  rw [entry_ofColumns, List.getD_eq_getElem?_getD]
  cases hc : cs[j]?
  case none => rfl
  case some c =>
    refine entryAt_of_forall_ne fun e he => ?_
    have := h.below c (List.mem_of_getElem? hc) e he
    omega

end SparseMatrix
end ConicProgram
