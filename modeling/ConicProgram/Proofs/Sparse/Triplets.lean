import ConicProgram.Proofs.Sparse.Entries
import ConicProgram.Sparse.Triplets

namespace ConicProgram

namespace Triplet

variable {α : Type} [Scalar α] {s t u : Triplet α} {ts : List (Triplet α)} {i j : Nat}

omit [Scalar α] in
theorem before_iff : s.before t ↔ s.col < t.col ∨ s.col = t.col ∧ s.row ≤ t.row := by
  simp [before]

omit [Scalar α] in
theorem sameCell_iff : s.sameCell t ↔ s.row = t.row ∧ s.col = t.col := by
  simp [sameCell]

omit [Scalar α] in
theorem before_trans (s t u : Triplet α) (hst : s.before t) (htu : t.before u) : s.before u := by
  rw [before_iff] at *
  omega

omit [Scalar α] in
theorem before_total (s t : Triplet α) : s.before t || t.before s := by
  rw [Bool.or_eq_true, before_iff, before_iff]
  omega

omit [Scalar α] in
theorem pairwise_sort (ts : List (Triplet α)) :
    (ts.mergeSort before).Pairwise fun s t => s.before t :=
  List.pairwise_mergeSort before_trans before_total ts

-- The cell of the one stands before that of the other.
def Precedes {α : Type} (s t : Triplet α) : Prop :=
  s.col < t.col ∨ s.col = t.col ∧ s.row < t.row

omit [Scalar α] in
-- What stands behind the run of a triplet stands at later cells.
theorem precedes_of_mem (h : (t :: u :: ts).Pairwise fun s t => s.before t)
    (hne : ¬t.sameCell u) (hs : s ∈ u :: ts) : t.Precedes s := by
  have ⟨ht, hu⟩ := List.pairwise_cons.mp h
  have htu := before_iff.mp (ht u (List.mem_cons_self ..))
  have hus : u.col < s.col ∨ u.col = s.col ∧ u.row ≤ s.row := by
    rcases List.mem_cons.mp hs with rfl | hs
    · exact .inr ⟨rfl, le_rfl⟩
    · exact before_iff.mp ((List.pairwise_cons.mp hu).1 s hs)
  rw [sameCell_iff] at hne
  unfold Precedes
  omega

theorem exists_sameCell_of_mem_gather (h : s ∈ gather t ts) : ∃ u ∈ t :: ts, s.sameCell u := by
  induction ts generalizing t
  case nil => exact ⟨s, h, sameCell_iff.mpr ⟨rfl, rfl⟩⟩
  case cons u ts hi =>
    rw [gather] at h
    split at h
    case isTrue =>
      have ⟨v, hv, hsv⟩ := hi h
      rcases List.mem_cons.mp hv with rfl | hv
      · exact ⟨t, List.mem_cons_self .., hsv⟩
      · exact ⟨v, List.mem_cons_of_mem _ (List.mem_cons_of_mem _ hv), hsv⟩
    case isFalse =>
      rcases List.mem_cons.mp h with rfl | h
      · exact ⟨s, List.mem_cons_self .., sameCell_iff.mpr ⟨rfl, rfl⟩⟩
      · have ⟨v, hv, hsv⟩ := hi h
        exact ⟨v, List.mem_cons_of_mem _ hv, hsv⟩

theorem pairwise_gather (h : (t :: ts).Pairwise fun s t => s.before t) :
    (gather t ts).Pairwise Precedes := by
  induction ts generalizing t
  case nil => exact List.pairwise_singleton ..
  case cons u ts hi =>
    have ⟨ht, hu⟩ := List.pairwise_cons.mp h
    rw [gather]
    split
    case isTrue =>
      exact hi (List.pairwise_cons.mpr
        ⟨fun s hs => ht s (List.mem_cons_of_mem _ hs), (List.pairwise_cons.mp hu).2⟩)
    case isFalse hne =>
      refine List.pairwise_cons.mpr ⟨fun s hs => ?_, hi hu⟩
      have ⟨v, hv, hsv⟩ := exists_sameCell_of_mem_gather hs
      have htv := precedes_of_mem h hne hv
      rw [sameCell_iff] at hsv
      unfold Precedes at htv ⊢
      omega

-- The merged triplets stand at the cells that there are, each of them once and in order.
theorem pairwise_mergeRuns (h : ts.Pairwise fun s t => s.before t) :
    (mergeRuns ts).Pairwise Precedes ∧ ∀ s ∈ mergeRuns ts, ∃ u ∈ ts, s.sameCell u := by
  cases ts
  case nil => exact ⟨.nil, nofun⟩
  case cons t ts => exact ⟨pairwise_gather h, fun s hs => exists_sameCell_of_mem_gather hs⟩

def valuesAt {α : Type} (ts : List (Triplet α)) (i j : Nat) : List α :=
  (ts.filter fun t => t.row = i ∧ t.col = j).map (·.value)

omit [Scalar α] in
theorem valuesAt_cons : valuesAt (t :: ts) i j =
    if t.row = i ∧ t.col = j then t.value :: valuesAt ts i j else valuesAt ts i j := by
  unfold valuesAt
  rw [List.filter_cons]
  split <;> simp_all

omit [Scalar α] in
-- The sort is stable: what stands at one cell keeps its order.
theorem valuesAt_sort (ts : List (Triplet α)) (i j : Nat) :
    valuesAt (ts.mergeSort before) i j = valuesAt ts i j := by
  let cell (t : Triplet α) : Bool := t.row = i ∧ t.col = j
  have hle : (ts.filter cell).Pairwise fun s t => s.before t := by
    refine List.pairwise_of_forall_mem_list fun s hs t ht => ?_
    have hs : s.row = i ∧ s.col = j := of_decide_eq_true (List.mem_filter.mp hs).2
    have ht : t.row = i ∧ t.col = j := of_decide_eq_true (List.mem_filter.mp ht).2
    rw [before_iff]
    omega
  have hsub : (ts.filter cell).Sublist (ts.mergeSort before) :=
    List.sublist_mergeSort before_trans before_total hle List.filter_sublist
  have heq : ts.filter cell = (ts.mergeSort before).filter cell := by
    refine List.Sublist.eq_of_length ?_ ((List.mergeSort_perm ts before).filter cell).length_eq.symm
    simpa only [List.filter_filter, Bool.and_self] using hsub.filter cell
  exact congrArg (List.map (·.value)) heq.symm

omit [Scalar α] in
theorem valuesAt_eq_nil_iff : valuesAt ts i j = [] ↔ ∀ t ∈ ts, ¬(t.row = i ∧ t.col = j) := by
  simp [valuesAt]

omit [Scalar α] in
theorem eq_iff : s = t ↔ (t.row = s.row ∧ t.col = s.col) ∧ s.value = t.value := by
  rcases s with ⟨_, _, _⟩
  rcases t with ⟨_, _, _⟩
  simp [and_assoc, eq_comm]

-- In the sorted triplets those of a cell stand in one run, which is added up from its first value
-- on.
theorem mem_gather (h : (t :: ts).Pairwise fun s t => s.before t) : s ∈ gather t ts ↔
    valuesAt (t :: ts) s.row s.col ≠ [] ∧ s.value = total (valuesAt (t :: ts) s.row s.col) := by
  induction ts generalizing t
  case nil =>
    rw [gather, List.mem_singleton, valuesAt_cons, eq_iff]
    split <;> simp_all [valuesAt, total]
  case cons u ts hi =>
    have ⟨ht, hu⟩ := List.pairwise_cons.mp h
    rw [gather]
    split
    case isTrue hc =>
      have hc := sameCell_iff.mp hc
      have hsum := hi (t := { t with value := t.value + u.value }) (List.pairwise_cons.mpr
        ⟨fun s hs => ht s (List.mem_cons_of_mem _ hs), (List.pairwise_cons.mp hu).2⟩)
      rw [hsum, valuesAt_cons, valuesAt_cons, valuesAt_cons, ← hc.1, ← hc.2]
      split
      case isTrue => simp [total]
      case isFalse => rfl
    case isFalse hc =>
      rw [List.mem_cons, hi hu, eq_iff, valuesAt_cons (t := t)]
      split
      case isFalse hcell => simp only [hcell, false_and, false_or]
      case isTrue hcell =>
        have hrest : valuesAt (u :: ts) s.row s.col = [] := by
          refine valuesAt_eq_nil_iff.mpr fun v hv hcell' => ?_
          have htv := precedes_of_mem h hc hv
          unfold Precedes at htv
          omega
        simp [hrest, hcell, total]

-- One triplet is left for each cell that there is, with the sum of the values at the cell.
theorem mem_mergeRuns_sort : t ∈ mergeRuns (ts.mergeSort before) ↔
    valuesAt ts t.row t.col ≠ [] ∧ t.value = total (valuesAt ts t.row t.col) := by
  rw [← valuesAt_sort]
  cases hs : ts.mergeSort before
  case nil => simp [mergeRuns, valuesAt]
  case cons u us => exact mem_gather (hs ▸ pairwise_sort ts)

end Triplet

namespace SparseMatrix

variable {α : Type} [Scalar α] {rows cols i j : Nat} {t : Triplet α} {ts : List (Triplet α)}

def cellsIn (cells : List (Triplet α)) (j : Nat) : List (Nat × α) :=
  (cells.filter (·.col = j)).map fun t => (t.row, t.value)

-- The matrix has the merged triplets in its columns.
theorem ofTriplets?_eq_some (h : ∀ t ∈ ts, t.row < rows ∧ t.col < cols) :
    ∃ cells, cells = Triplet.mergeRuns (ts.mergeSort Triplet.before) ∧
      cells.Pairwise Triplet.Precedes ∧ (∀ t ∈ cells, t.row < rows ∧ t.col < cols) ∧
      ofTriplets? rows cols ts = some (ofColumns rows ((List.range cols).map (cellsIn cells))) := by
  have ⟨hp, hm⟩ := Triplet.pairwise_mergeRuns (Triplet.pairwise_sort ts)
  generalize hcells : Triplet.mergeRuns (ts.mergeSort Triplet.before) = cells at hp hm
  have hin : ∀ t ∈ cells, t.row < rows ∧ t.col < cols := by
    intro t ht
    have ⟨u, hu, htu⟩ := hm t ht
    have ⟨hr, hc⟩ := Triplet.sameCell_iff.mp htu
    rw [hr, hc]
    exact h u (List.mem_mergeSort.mp hu)
  have hs : ((List.range cols).flatMap fun j => cells.filter (·.col = j)) = cells := by
    refine Lists.flatMap_filter_eq (hp.imp fun {s t} hst => ?_) fun t ht => (hin t ht).2
    unfold Triplet.Precedes at hst
    omega
  have hf : ((List.range cols).map (cellsIn cells)).flatten =
      cells.map fun t => (t.row, t.value) := by
    conv_rhs => rw [← hs, List.map_flatMap]
    rw [List.flatMap_def]
    rfl
  refine ⟨cells, rfl, hp, hin, ?_⟩
  rw [ofTriplets?, if_pos (by simpa using h), hcells]
  simp only [ofColumns, hf, List.length_map, List.length_range, List.map_map]
  congr 3
  refine List.map_congr_left fun j _ => ?_
  rw [Function.comp, cellsIn, List.length_map, List.count, List.countP_map,
    List.countP_eq_length_filter]
  rfl

omit [Scalar α] in
theorem fit_cellsIn (hp : ts.Pairwise Triplet.Precedes) (h : ∀ t ∈ ts, t.row < rows) :
    Columns.Fit rows ((List.range cols).map (cellsIn ts)) where
  increasing := by
    intro c hc
    have ⟨j, _, hc⟩ := List.mem_map.mp hc
    rw [← hc, Increasing, cellsIn, List.pairwise_map]
    refine (hp.filter _).imp_of_mem fun {s t} hs ht hst => ?_
    have hs : s.col = j := of_decide_eq_true (List.mem_filter.mp hs).2
    have ht : t.col = j := of_decide_eq_true (List.mem_filter.mp ht).2
    unfold Triplet.Precedes at hst
    dsimp only
    omega
  below := by
    intro c hc e he
    have ⟨j, _, hc⟩ := List.mem_map.mp hc
    rw [← hc] at he
    have ⟨t, ht, he⟩ := List.mem_map.mp he
    exact he ▸ h t (List.mem_filter.mp ht).1

omit [Scalar α] in
theorem mem_entries_cellsIn (h : ∀ t ∈ ts, t.col < cols) :
    t ∈ (ofColumns rows ((List.range cols).map (cellsIn ts))).entries ↔ t ∈ ts := by
  simp only [mem_entries_ofColumns, List.getElem?_map, Option.map_eq_some_iff,
    List.getElem?_eq_some_iff, List.getElem_range, List.length_range, cellsIn]
  constructor
  case mp =>
    rintro ⟨_, ⟨j, ⟨_, rfl⟩, rfl⟩, he⟩
    obtain ⟨s, hs, he⟩ := List.mem_map.mp he
    have ⟨hs, hj⟩ := List.mem_filter.mp hs
    have ⟨hr, hv⟩ := Prod.mk.inj he
    rwa [Triplet.eq_iff.mpr ⟨⟨hr, of_decide_eq_true hj⟩, hv.symm⟩]
  case mpr =>
    intro ht
    exact ⟨_, ⟨t.col, ⟨h t ht, rfl⟩, rfl⟩,
      List.mem_map.mpr ⟨t, List.mem_filter.mpr ⟨ht, decide_eq_true rfl⟩, rfl⟩⟩

-- The matrix stores the cells of the triplets, each with the sum of the values that are given for
-- it, taken in their order.
structure Gathers (a : SparseMatrix α) (rows cols : Nat) (ts : List (Triplet α)) : Prop where
  size    : a.size = (rows, cols)
  format  : a.checkFormat = .ok ()
  entries : ∀ t, t ∈ a.entries ↔ Triplet.valuesAt ts t.row t.col ≠ [] ∧
    t.value = total (Triplet.valuesAt ts t.row t.col)

theorem exists_gathers (h : ∀ t ∈ ts, t.row < rows ∧ t.col < cols) :
    ∃ a, ofTriplets? rows cols ts = some a ∧ a.Gathers rows cols ts := by
  obtain ⟨cells, hcells, hp, hin, ha⟩ := ofTriplets?_eq_some h
  refine ⟨_, ha, by simp [size], checkFormat_ofColumns (fit_cellsIn hp fun t ht => (hin t ht).1),
    fun t => ?_⟩
  rw [mem_entries_cellsIn fun t ht => (hin t ht).2, hcells, Triplet.mem_mergeRuns_sort]

theorem ofTriplets?_eq_none_iff :
    ofTriplets? rows cols ts = none ↔ ¬∀ t ∈ ts, t.row < rows ∧ t.col < cols := by
  simp [ofTriplets?]

theorem Gathers.entry_eq {a : SparseMatrix α} (h : a.Gathers rows cols ts) (i j : Nat) :
    a.entry i j = total (Triplet.valuesAt ts i j) := by
  have ⟨cs, ha, hf⟩ := exists_ofColumns h.format
  have hm (v : α) : (cs.getD j []).lookup i = some v ↔ ⟨i, j, v⟩ ∈ a.entries :=
    ha ▸ hf.lookup_getD_eq_some_iff
  rw [ha, entry_ofColumns, entryAt]
  cases hl : (cs.getD j []).lookup i
  case some v => exact ((h.entries _).mp ((hm v).mp hl)).2
  case none =>
    by_cases hv : Triplet.valuesAt ts i j = []
    case pos => rw [hv]; rfl
    case neg =>
      have hs := (hm (total (Triplet.valuesAt ts i j))).mpr ((h.entries _).mpr ⟨hv, rfl⟩)
      rw [hl] at hs
      cases hs

end SparseMatrix
end ConicProgram
