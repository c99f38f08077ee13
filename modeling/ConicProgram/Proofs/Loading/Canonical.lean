import Mathlib.Algebra.BigOperators.Intervals
import ConicProgram.Proofs.Model.Feasibility
import ConicProgram.Proofs.Loading.Cold

namespace ConicProgram

variable {K : Type} [Field K] [LinearOrder K] [FloorRing K]

attribute [local instance] Scalar.exact

namespace Problem

variable {p : Problem K} {z : Nat → K} {i j : Nat}

section Point

def activity (p : Problem K) (z : Nat → K) (i : Nat) : K :=
  ∑ j ∈ Finset.range p.variableCount, p.matrix.entry i j * z j

-- What row `i` leaves of its right-hand side.
def residual (p : Problem K) (z : Nat → K) (i : Nat) : K :=
  p.rhs.getD i 0 - p.activity z i

-- What the problem says of a point.
structure Admits (p : Problem K) (z : Nat → K) : Prop where
  equalities   : ∀ i < p.partition.equalities, p.activity z i = p.rhs.getD i 0
  inequalities : ∀ i, p.partition.equalities ≤ i → i < p.partition.linearRows →
    p.activity z i ≤ p.rhs.getD i 0
  cones        : ∀ b ∈ p.partition.blocks,
    (Cone.secondOrder b.size).Contains (b.rows.toList.map (p.residual z))
  units        : ∀ j ∈ p.booleans, j ∉ p.integers → 0 ≤ z j ∧ z j ≤ 1

-- The columns of slacks, where there are any, hold the slacks.
def Tied (p : Problem K) (z : Nat → K) : ConeMode → Prop
  | .auxiliary => ∀ i, p.partition.linearRows ≤ i → i < p.rowCount →
      z (p.slackColumn i) = p.residual z i
  | .substituted => True

end Point

section Rows

theorem Valid.coefficient_row_eq (h : p.Valid) (i j : Nat) :
    (p.row i).coefficient j = p.matrix.entry i j := by
  have hn : p.Numbers := ⟨fun x _ => Scalar.isNumber_exact x, fun x _ => Scalar.isNumber_exact x,
    fun x _ => Scalar.isNumber_exact x⟩
  exact beq_iff_eq.mp (h.coefficient_row hn i j)

theorem Valid.value_row (h : p.Valid) (i : Nat) : (p.row i).value z = p.activity z i := by
  rw [Row.value_eq fun e he => h.mem_entries_row he, activity]
  exact Finset.sum_congr rfl fun j _ => by rw [h.coefficient_row_eq]

theorem Valid.value_tiedRow (h : p.Valid) (i : Nat) :
    (p.tiedRow i).value z = p.activity z i + z (p.slackColumn i) := by
  have hs : p.variableCount ≤ p.slackColumn i := Nat.le_add_right ..
  have hn : ∀ e ∈ (p.tiedRow i).coefficients.entries, e.1 < p.slackColumn i + 1 := by
    intro e he
    rcases Model.mem_entries_setCoefficient he with rfl | he
    · exact Nat.lt_succ_self _
    · have := h.mem_entries_row he
      omega
  have hcol (j : Nat) (hj : j < p.slackColumn i) :
      (p.tiedRow i).coefficient j = p.matrix.entry i j := by
    rw [tiedRow, Row.coefficient_setCoefficient, if_neg (by omega), h.coefficient_row_eq]
  have hone : (p.tiedRow i).coefficient (p.slackColumn i) = 1 := by
    rw [tiedRow, Row.coefficient_setCoefficient, if_pos rfl]
    simp
  rw [Row.value_eq hn, Finset.sum_range_succ, hone, one_mul, activity]
  congr 1
  rw [Finset.sum_congr rfl fun j hj => by rw [hcol j (Finset.mem_range.mp hj)]]
  exact Finset.eventually_constant_sum (fun j hj => by rw [h.entry_eq_zero hj, zero_mul]) hs

theorem holds_of_equal {r : Row K} (hr : r.sense = .equal) : r.Holds z ↔ r.value z = r.rhs := by
  rw [Row.Holds, hr, le_antisymm_iff]

theorem Valid.row_holds_iff (h : p.Valid) (i : Nat) (hi : i < p.partition.linearRows) :
    (p.row i).Holds z ↔
      (i < p.partition.equalities → p.activity z i = p.rhs.getD i 0) ∧
      (p.partition.equalities ≤ i → p.activity z i ≤ p.rhs.getD i 0) := by
  have hr : (p.row i).rhs = p.rhs.getD i 0 := Row.rhs_ofEntries
  have hs : (p.row i).sense = p.sense i := Row.sense_ofEntries
  by_cases he : i < p.partition.equalities
  case pos =>
    have hs : (p.row i).sense = .equal := by
      rw [hs, sense, if_neg (by omega)]
    rw [holds_of_equal hs, h.value_row, hr]
    exact ⟨fun hv => ⟨fun _ => hv, fun hle => absurd he (not_lt.mpr hle)⟩, fun hv => hv.1 he⟩
  case neg =>
    have hs : (p.row i).sense = .atMost := by
      rw [hs, sense, if_pos ⟨not_lt.mp he, hi⟩]
    rw [Row.Holds, hs, h.value_row, hr]
    exact ⟨fun hv => ⟨fun hlt => absurd hlt he, fun _ => hv⟩, fun hv => hv.2 (not_lt.mp he)⟩

theorem Valid.tiedRow_holds_iff (h : p.Valid) (hi : p.partition.linearRows ≤ i) :
    (p.tiedRow i).Holds z ↔ z (p.slackColumn i) = p.residual z i := by
  have hr : (p.tiedRow i).rhs = p.rhs.getD i 0 := by
    rw [tiedRow, Row.rhs_setCoefficient]
    exact Row.rhs_ofEntries
  have hs : (p.tiedRow i).sense = .equal := by
    rw [tiedRow, Row.sense_setCoefficient]
    exact Row.sense_ofEntries.trans (if_neg (by omega))
  rw [holds_of_equal hs, h.value_tiedRow, hr, residual, eq_sub_iff_add_eq']

theorem Valid.linearRows_hold_iff (h : p.Valid) :
    (∀ i < p.partition.linearRows, (p.row i).Holds z) ↔
      (∀ i < p.partition.equalities, p.activity z i = p.rhs.getD i 0) ∧
      ∀ i, p.partition.equalities ≤ i → i < p.partition.linearRows →
        p.activity z i ≤ p.rhs.getD i 0 := by
  have hle : p.partition.equalities ≤ p.partition.linearRows := Nat.le_add_right ..
  constructor
  case mp =>
    intro hr
    exact ⟨fun i hi => ((h.row_holds_iff i (hi.trans_le hle)).mp (hr i (hi.trans_le hle))).1 hi,
      fun i he hi => ((h.row_holds_iff i hi).mp (hr i hi)).2 he⟩
  case mpr =>
    intro ⟨he, hi⟩ i hl
    exact (h.row_holds_iff i hl).mpr ⟨he i, fun hle => hi i hle hl⟩

theorem Valid.tiedRows_hold_iff (h : p.Valid) (mode : ConeMode) :
    (∀ i < p.heldRows mode, p.partition.linearRows ≤ i → (p.tiedRow i).Holds z) ↔
      p.Tied z mode := by
  cases mode
  case auxiliary =>
    exact ⟨fun ht i hl hi => (h.tiedRow_holds_iff hl).mp (ht i hi hl),
      fun ht i hi hl => (h.tiedRow_holds_iff hl).mpr (ht i hl hi)⟩
  case substituted => exact iff_of_true (fun i hi hl => absurd hi (not_lt.mpr hl)) trivial

-- The rows of the model are the linear rows of the problem, and what ties the slacks.
theorem Valid.rows_hold_iff (h : p.Valid) (mode : ConeMode) :
    (∀ r ∈ (p.loaded mode).rows, r.Holds z) ↔
      (∀ i < p.partition.equalities, p.activity z i = p.rhs.getD i 0) ∧
      (∀ i, p.partition.equalities ≤ i → i < p.partition.linearRows →
        p.activity z i ≤ p.rhs.getD i 0) ∧ p.Tied z mode := by
  have hheld := h.linearRows_le_heldRows mode
  rw [h.rows_loaded, ← h.tiedRows_hold_iff, ← and_assoc, ← h.linearRows_hold_iff,
    List.forall_mem_map]
  simp only [List.mem_range, heldRow]
  constructor
  case mp =>
    intro hr
    refine ⟨fun i hi => ?_, fun i hi hl => ?_⟩
    · have := hr i (hi.trans_le hheld)
      rwa [if_pos hi] at this
    · have := hr i hi
      rwa [if_neg (not_lt.mpr hl)] at this
  case mpr =>
    intro ⟨hr, ht⟩ i hi
    split
    case isTrue hl => exact hr i hl
    case isFalse hl => exact ht i hi (not_lt.mp hl)

end Rows

section Kinds

theorem getElem?_foldl_set (js : List Nat) (kind : ColumnKind) (kinds : List ColumnKind) (j : Nat) :
    ((js.map (·, kind)).foldl (fun kinds (j, kind) => kinds.set j kind) kinds)[j]? =
      if j ∈ js ∧ j < kinds.length then some kind else kinds[j]? := by
  induction js generalizing kinds
  case nil => simp
  case cons k js hi =>
    rw [List.map_cons, List.foldl_cons, hi, List.length_set]
    by_cases hj : j < kinds.length <;> by_cases hk : k = j <;> by_cases hm : j ∈ js <;>
      simp_all [List.getElem?_set, eq_comm]

omit [Field K] [LinearOrder K] [FloorRing K] in
-- A variable that is listed in both ways is an integer one.
theorem kinds_eq_binary_iff (hj : j < p.variableCount) :
    p.kinds[j]? = some .binary ↔ j ∈ p.booleans ∧ j ∉ p.integers := by
  rw [kinds, discreteKinds, List.foldl_append, getElem?_foldl_set, getElem?_foldl_set,
    length_foldl_set, List.length_replicate]
  by_cases hb : j ∈ p.booleans <;> by_cases hi : j ∈ p.integers <;> simp [hb, hi, hj]

end Kinds

section Bounds

variable {bs cs : List (Bounds K)} {k : Nat}

-- The coordinates from `k` on lie within the bounds.
def Within (bs : List (Bounds K)) (k : Nat) (z : Nat → K) : Prop :=
  ∀ (j : Nat) (b : Bounds K), bs[j]? = some b → b.Contains (z (k + j))

theorem within_cons {b : Bounds K} :
    Within (b :: bs) k z ↔ b.Contains (z k) ∧ Within bs (k + 1) z := by
  constructor
  case mp =>
    intro h
    refine ⟨h 0 b rfl, fun j c hc => ?_⟩
    have hj := h (j + 1) c hc
    rwa [← Nat.add_assoc, Nat.add_right_comm] at hj
  case mpr =>
    intro ⟨hb, h⟩ j c hc
    cases j
    case zero =>
      cases hc
      exact hb
    case succ j =>
      rw [← Nat.add_assoc, Nat.add_right_comm]
      exact h j c hc

theorem within_append :
    Within (bs ++ cs) k z ↔ Within bs k z ∧ Within cs (k + bs.length) z := by
  induction bs generalizing k
  case nil => exact ⟨fun h => ⟨nofun, h⟩, fun h => h.2⟩
  case cons b bs hi =>
    rw [List.cons_append, within_cons, within_cons, hi, and_assoc, List.length_cons,
      Nat.add_assoc, Nat.add_comm 1]

theorem contains_free (x : K) : Bounds.free.Contains x :=
  ⟨fun h => absurd (of_decide_eq_true h) (lt_irrefl _),
    fun h => absurd (of_decide_eq_true h) (lt_irrefl _)⟩

theorem within_replicate_free (n : Nat) : Within (List.replicate n .free) k z := by
  intro j b hb
  have hb := (List.mem_replicate.mp (List.mem_of_getElem? hb)).2
  rw [hb]
  exact contains_free _

variable [IsStrictOrderedRing K]

theorem one_lt_unlimited : (1 : K) < Bounds.unlimited := by
  have h : (1 : K) < 1e20 := by norm_num
  exact h

theorem contains_nonnegative_iff {x : K} : Bounds.nonnegative.Contains x ↔ 0 ≤ x := by
  have hu : (0 : K) < Bounds.unlimited := zero_lt_one.trans one_lt_unlimited
  have hl : (Bounds.nonnegative : Bounds K).hasLower := decide_eq_true (neg_lt_zero.mpr hu)
  have hn : ¬(Bounds.nonnegative : Bounds K).hasUpper :=
    fun h => absurd (of_decide_eq_true h) (lt_irrefl _)
  exact ⟨fun h => h.1 hl, fun h => ⟨fun _ => h, fun h => absurd h hn⟩⟩

theorem contains_unit_iff {x : K} : (Bounds.free.toUnit).Contains x ↔ 0 ≤ x ∧ x ≤ 1 := by
  have hu := one_lt_unlimited (K := K)
  have h₀ : (0 : K) < Bounds.unlimited := zero_lt_one.trans hu
  have hraise : Scalar.raise 0 (-Bounds.unlimited : K) = 0 :=
    if_neg (not_lt.mpr (neg_nonpos.mpr h₀.le))
  have hlower : Scalar.lower 1 (Bounds.unlimited : K) = 1 := if_neg (not_lt.mpr hu.le)
  have he : Bounds.free.toUnit = (⟨0, 1⟩ : Bounds K) := by
    rw [Bounds.toUnit, Bounds.free, hraise, hlower]
  have hl : (⟨0, 1⟩ : Bounds K).hasLower := decide_eq_true (neg_lt_zero.mpr h₀)
  have hr : (⟨0, 1⟩ : Bounds K).hasUpper := decide_eq_true hu
  rw [he]
  exact ⟨fun h => ⟨h.1 hl, h.2 hr⟩, fun h => ⟨fun _ => h.1, fun _ => h.2⟩⟩

theorem within_slackBounds_iff (size : Nat) :
    Within (slackBounds size) k z ↔ (0 < size → 0 ≤ z k) := by
  cases size
  case zero => exact iff_of_true nofun nofun
  case succ legs =>
    rw [slackBounds, within_cons, contains_nonnegative_iff,
      and_iff_left (within_replicate_free legs)]
    exact ⟨fun h _ => h, fun h => h (Nat.succ_pos legs)⟩

-- What the bounds of the variables come to. Only binary variables have any.
theorem Valid.within_structural_iff (h : p.Valid) :
    Within (p.structuralColumns.map (·.effectiveBounds)) 0 z ↔
      ∀ j ∈ p.booleans, j ∉ p.integers → 0 ≤ z j ∧ z j ≤ 1 := by
  have hget (j : Nat) : (p.structuralColumns.map (·.effectiveBounds))[j]? =
      p.kinds[j]?.map fun kind => Column.effectiveBounds ⟨.free, kind⟩ := by
    rw [structuralColumns, List.map_map, List.getElem?_map]
    rfl
  constructor
  case mp =>
    intro hw j hb hi
    have hk := (kinds_eq_binary_iff (h.booleans j hb)).mpr ⟨hb, hi⟩
    have hc := hw j Bounds.free.toUnit (by rw [hget, hk]; rfl)
    rwa [Nat.zero_add, contains_unit_iff] at hc
  case mpr =>
    intro hu j b hb
    rw [hget] at hb
    obtain ⟨kind, hk, hb⟩ := Option.map_eq_some_iff.mp hb
    rw [Nat.zero_add, ← hb]
    cases kind
    case continuous => exact contains_free _
    case integer => exact contains_free _
    case binary =>
      obtain ⟨hj, _⟩ := List.getElem?_eq_some_iff.mp hk
      rw [length_kinds] at hj
      obtain ⟨hb, hi⟩ := (kinds_eq_binary_iff hj).mp hk
      exact contains_unit_iff.mpr (hu j hb hi)

theorem within_slacks_iff (index start k : Nat) (sizes : List Nat) :
    Within ((ConeBlock.sequence index start sizes).flatMap fun b => slackBounds b.size) k z ↔
      ∀ b ∈ ConeBlock.sequence index start sizes, 0 < b.size → 0 ≤ z (k + (b.start - start)) := by
  induction sizes generalizing index start k
  case nil => exact iff_of_true nofun nofun
  case cons size sizes hi =>
    rw [ConeBlock.sequence, List.flatMap_cons, within_append, within_slackBounds_iff, hi,
      List.forall_mem_cons, length_slackBounds, Nat.sub_self, Nat.add_zero]
    refine and_congr_right fun _ => forall₂_congr fun b hb => imp_congr_right fun _ => ?_
    have := ConeBlock.start_le_of_mem_sequence hb
    rw [show k + size + (b.start - (start + size)) = k + (b.start - start) by omega]

end Bounds

section Cones

variable {b : ConeBlock}

theorem holds_constraint_iff {es : List (AffineExpr K)} (he : es ≠ []) :
    (∀ c ∈ b.constraint es, c.Holds z) ↔
      (Cone.secondOrder es.length).Contains (es.map (·.value z)) := by
  cases es
  case nil => exact absurd rfl he
  case cons apex legs =>
    rw [ConeBlock.constraint, List.forall_mem_singleton, List.map_cons,
      Cone.contains_secondOrder_cons, List.length_map, List.length_cons, and_iff_right rfl,
      List.map_map]
    rfl

theorem value_ofColumn (j : Nat) : (AffineExpr.ofColumn j : AffineExpr K).value z = z j := by
  simp [AffineExpr.value_eq_sum, AffineExpr.ofColumn]

theorem Valid.value_slack (h : p.Valid) (i : Nat) : (p.slack i).value z = p.residual z i := by
  rw [AffineExpr.value_eq_sum, slack, sum_neg_terms, ← sub_eq_add_neg,
    SparseMatrix.sum_row h.format]
  rfl

omit [Field K] [LinearOrder K] [FloorRing K] in
theorem Valid.size_pos_of_mem (h : p.Valid) (hb : b ∈ p.partition.blocks) : 0 < b.size :=
  h.cones _ (Partition.sizes_blocks p.partition ▸ List.mem_map_of_mem hb)

theorem toList_rows_ne_nil (hb : 0 < b.size) : b.rows.toList ≠ [] := by
  rw [← List.length_pos_iff, length_toList_rows]
  exact hb

-- In a constraint on the slacks there is all that the problem says of a block.
theorem Valid.substituted_cones_iff (h : p.Valid) :
    (∀ c ∈ (p.loaded .substituted).cones, c.Holds z) ↔ ∀ b ∈ p.partition.blocks,
      (Cone.secondOrder b.size).Contains (b.rows.toList.map (p.residual z)) := by
  rw [loaded, loadedWith, List.forall_mem_flatMap]
  refine forall₂_congr fun b hb => ?_
  have hpos := h.size_pos_of_mem hb
  rw [holds_constraint_iff (by simpa using toList_rows_ne_nil hpos), List.length_map,
    length_toList_rows, List.map_map]
  have hv : (fun e : AffineExpr K => e.value z) ∘ p.slack = p.residual z :=
    funext fun i => h.value_slack i
  rw [hv]

-- Where the slacks are columns, the bounds of a cone of one row are all there is.
theorem Valid.auxiliary_cones_iff [IsStrictOrderedRing K] (h : p.Valid)
    (ht : p.Tied z .auxiliary) :
    (∀ c ∈ (p.loaded .auxiliary).cones, c.Holds z) ∧
      (∀ b ∈ p.partition.blocks, 0 < b.size → 0 ≤ z (p.slackColumn b.start)) ↔
    ∀ b ∈ p.partition.blocks,
      (Cone.secondOrder b.size).Contains (b.rows.toList.map (p.residual z)) := by
  rw [loaded, loadedWith, List.forall_mem_flatMap, ← forall₂_and]
  refine forall₂_congr fun b hb => ?_
  have hpos := h.size_pos_of_mem hb
  have hv : b.rows.toList.map (p.residual z) = b.rows.toList.map (z ∘ p.slackColumn) := by
    refine List.map_congr_left fun i hi => ?_
    have hi := h.mem_rows_block.mp ⟨b, hb, Span.mem_toList.mp hi⟩
    exact (ht i hi.1 hi.2).symm
  rw [hv, forall_prop_of_true hpos]
  split
  case isTrue hle =>
    have hone : b.size = 1 := by omega
    rw [toList_rows, hone, List.range'_one, List.map_singleton, Cone.contains_secondOrder_cons]
    simpa using fun _ => mul_self_nonneg (z (p.slackColumn b.start))
  case isFalse hle =>
    have hvalue : (fun e : AffineExpr K => e.value z) ∘ (fun i => .ofColumn (p.slackColumn i)) =
        z ∘ p.slackColumn := funext fun i => value_ofColumn _
    rw [holds_constraint_iff (by simpa using toList_rows_ne_nil hpos), List.length_map,
      length_toList_rows, List.map_map, hvalue]
    refine and_iff_left_of_imp fun hc => ?_
    obtain ⟨legs, hsize⟩ := Nat.exists_eq_add_of_lt hpos
    rw [toList_rows, hsize, Nat.zero_add, List.range'_succ, List.map_cons,
      Cone.contains_secondOrder_cons] at hc
    exact hc.2.1

end Cones

section Loaded

variable [IsStrictOrderedRing K]

-- A point satisfies what is loaded if it satisfies the problem, with the slacks in their columns.
theorem Valid.satisfied_loaded_iff (h : p.Valid) (mode : ConeMode) :
    (p.loaded mode).Satisfied z ∧ Within (p.loaded mode).columnBounds 0 z ↔
      p.Admits z ∧ p.Tied z mode := by
  have ha : p.Admits z ↔
      ((∀ i < p.partition.equalities, p.activity z i = p.rhs.getD i 0) ∧
        (∀ i, p.partition.equalities ≤ i → i < p.partition.linearRows →
          p.activity z i ≤ p.rhs.getD i 0)) ∧
      (∀ b ∈ p.partition.blocks,
        (Cone.secondOrder b.size).Contains (b.rows.toList.map (p.residual z))) ∧
      ∀ j ∈ p.booleans, j ∉ p.integers → 0 ≤ z j ∧ z j ≤ 1 :=
    ⟨fun h => ⟨⟨h.equalities, h.inequalities⟩, h.cones, h.units⟩,
      fun ⟨⟨he, hi⟩, hc, hu⟩ => ⟨he, hi, hc, hu⟩⟩
  rw [Model.Satisfied, h.rows_hold_iff mode, ha]
  cases mode
  case substituted =>
    have hb : (p.loaded .substituted).columnBounds = p.structuralColumns.map (·.effectiveBounds) :=
      rfl
    rw [hb, h.within_structural_iff, h.substituted_cones_iff]
    tauto
  case auxiliary =>
    have hb : (p.loaded .auxiliary).columnBounds = p.structuralColumns.map (·.effectiveBounds) ++
        p.partition.blocks.flatMap fun b => slackBounds b.size := by
      simp [Model.columnBounds, loaded, loadedWith, List.map_flatMap, Function.comp_def,
        Column.effectiveBounds]
    have hl : 0 + (p.structuralColumns.map (·.effectiveBounds)).length = p.variableCount := by
      simp [structuralColumns, length_kinds]
    have hw : Within (p.partition.blocks.flatMap fun b => slackBounds b.size) p.variableCount z ↔
        ∀ b ∈ p.partition.blocks, 0 < b.size → 0 ≤ z (p.slackColumn b.start) :=
      within_slacks_iff 0 p.partition.linearRows p.variableCount p.partition.cones
    have hc := h.auxiliary_cones_iff (z := z)
    rw [hb, within_append, h.within_structural_iff, hl, hw]
    tauto

end Loaded

section Coordinates

variable {x y : List K} {w : Nat → K}

-- The point with the given coordinates, those of the variables first.
def point (x y : List K) (j : Nat) : K :=
  (x ++ y).getD j 0

-- The coordinates of the columns for slacks, as far as there are any.
def slacks (p : Problem K) (x : List K) : ConeMode → List K
  | .auxiliary => (List.range' p.partition.linearRows (p.rowCount - p.partition.linearRows)).map
      (p.residual (point x []))
  | .substituted => []

theorem residual_congr (h : ∀ j < p.variableCount, z j = w j) : p.residual z = p.residual w := by
  funext i
  rw [residual, residual, activity, activity]
  exact congrArg _ (Finset.sum_congr rfl fun j hj => by rw [h j (Finset.mem_range.mp hj)])

theorem activity_eq_sub (i : Nat) : p.activity z i = p.rhs.getD i 0 - p.residual z i :=
  (sub_sub_self ..).symm

theorem Valid.admits_congr (hv : p.Valid) (h : ∀ j < p.variableCount, z j = w j)
    (ha : p.Admits z) : p.Admits w := by
  have hr := residual_congr h
  refine ⟨fun i hi => ?_, fun i he hi => ?_, fun b hb => ?_, fun j hb hi => ?_⟩
  · rw [activity_eq_sub, ← hr, ← activity_eq_sub]
    exact ha.equalities i hi
  · rw [activity_eq_sub, ← hr, ← activity_eq_sub]
    exact ha.inequalities i he hi
  · rw [← hr]
    exact ha.cones b hb
  · rw [← h j (hv.booleans j hb)]
    exact ha.units j hb hi

theorem point_of_lt (hj : j < x.length) : point x y j = point x [] j := by
  simp [point, List.getD_eq_getElem?_getD, List.getElem?_append_left hj]

theorem point_add (k : Nat) : point x y (x.length + k) = y.getD k 0 := by
  simp [point, List.getD_eq_getElem?_getD, List.getElem?_append_right]

theorem Valid.length_slacks (h : p.Valid) (x : List K) (mode : ConeMode) :
    p.variableCount + (p.slacks x mode).length = (p.loaded mode).columnCount := by
  cases mode
  case substituted => rw [loaded, columnCount_loadedWith_substituted, slacks, List.length_nil]; rfl
  case auxiliary =>
    have hr := h.rows
    rw [Partition.totalRows_eq] at hr
    rw [loaded, columnCount_loadedWith_auxiliary, Partition.sizes_blocks, slacks, List.length_map,
      List.length_range']
    omega

theorem Valid.tied_point_iff (h : p.Valid) (hx : x.length = p.variableCount) {mode : ConeMode}
    (hxy : (x ++ y).length = (p.loaded mode).columnCount) :
    p.Tied (point x y) mode ↔ y = p.slacks x mode := by
  have hl := h.length_slacks x mode
  rw [List.length_append, hx, ← hl] at hxy
  have hy : y.length = (p.slacks x mode).length := Nat.add_left_cancel hxy
  cases mode
  case substituted => exact iff_of_true trivial (List.eq_nil_of_length_eq_zero hy)
  case auxiliary =>
    have hr : p.residual (point x y) = p.residual (point x []) :=
      residual_congr fun j hj => point_of_lt (hx ▸ hj)
    have hp (i : Nat) : point x y (p.slackColumn i) = y.getD (i - p.partition.linearRows) 0 := by
      rw [slackColumn, ← hx, point_add]
    simp only [Tied, hp, hr]
    rw [slacks, List.length_map, List.length_range'] at hy
    constructor
    case mp =>
      intro ht
      refine List.ext_getElem (by rw [hy, slacks, List.length_map, List.length_range']) ?_
      intro k hk hk'
      have hi := ht (p.partition.linearRows + k) (Nat.le_add_right ..) (by omega)
      rw [Nat.add_sub_cancel_left, List.getD_eq_getElem?_getD, List.getElem?_eq_getElem hk] at hi
      simpa [slacks] using hi
    case mpr =>
      intro he i hi hir
      have hk : i - p.partition.linearRows < p.rowCount - p.partition.linearRows := by omega
      rw [he, slacks, List.getD_eq_getElem?_getD, List.getElem?_map, List.getElem?_range' hk]
      simp [Nat.add_sub_cancel' hi]

theorem Valid.dot_objective_loaded (h : p.Valid) (hx : x.length = p.variableCount) {mode : ConeMode}
    (hxy : (x ++ y).length = (p.loaded mode).columnCount) :
    Vector.dot? (p.loaded mode).objective (x ++ y) = Vector.dot? p.objective x := by
  have hc := h.objective
  have ho : (p.loaded mode).objective = p.objective ++ List.replicate y.length 0 := by
    rw [h.objective_loaded, paddedObjective, ← hxy, List.take_of_length_le (by simp [hc, hx]),
      List.length_append, hc, hx, Nat.add_sub_cancel_left]
  have hz : (((List.replicate y.length (0 : K)).zip y).map fun e => e.1 * e.2).sum = 0 := by
    refine List.sum_eq_zero fun v hv => ?_
    obtain ⟨e, he, hv⟩ := List.mem_map.mp hv
    rw [← hv, (List.mem_replicate.mp (List.of_mem_zip he).1).2, zero_mul]
  rw [ho, Vector.dot?, Vector.dot?, if_pos (by simp [hc, hx]), if_pos (hc.trans hx.symm),
    List.zip_append (hc.trans hx.symm), List.foldl_append]
  refine congrArg some ((foldl_add_eq_sum _ (fun e : K × K => e.1 * e.2) _).trans ?_)
  rw [hz, add_zero]

end Coordinates

-- Whichever way the cones are represented, the engine is given the problem: the variables of the
-- assembled system are free to take the values that the problem admits, the columns for slacks have
-- to take the slacks, and the objective is the one of the problem.
theorem coldLoad_canonical [IsStrictOrderedRing K] {τ ω : Type} (engine : Engine K ω)
    (mode : ConeMode) (t : τ) (hv : p.validate = .ok ()) (hw : p.Indexable) :
    ∃ cold m a,
      (Instance.coldLoad (ReferenceOptimizer.operations engine) p mode).Yields t cold t ∧
      cold.optimizer.model = some m ∧ m.assemble? m.columnBounds = some a ∧
      ∀ x : List K, x.length = p.variableCount →
        ((∃ y, (x ++ y).length = a.matrix.cols ∧ a.Admits (point x y)) ↔ p.Admits (point x [])) ∧
        ∀ y, (x ++ y).length = a.matrix.cols →
          (a.Admits (point x y) → y = p.slacks x mode) ∧
          Vector.dot? m.objective (x ++ y) = Vector.dot? p.objective x := by
  have h := valid_of_validate hv
  have hs := h.scoped_loaded mode
  have hl : (p.loaded mode).columnBounds.length ≤ (p.loaded mode).columnCount := by
    simp [Model.columnBounds, Model.columnCount]
  obtain ⟨a, ha, hr⟩ := hs.exists_assemble? hl
  have hy := h.yields_coldLoad engine mode hv hw t
  refine ⟨p.loadedInstance mode, p.loaded mode, a, hy, rfl, ha, fun x hx => ?_⟩
  rw [hr.cols]
  -- What the system admits is what the problem admits, with the slacks in their columns.
  have hadmits {y : List K} (hxy : (x ++ y).length = (p.loaded mode).columnCount) :
      a.Admits (point x y) ↔ p.Admits (point x []) ∧ y = p.slacks x mode := by
    have hw : (∀ (j : Nat) (b : Bounds K), (p.loaded mode).columnBounds[j]? = some b →
        b.Contains (point x y j)) ↔ Within (p.loaded mode).columnBounds 0 (point x y) := by
      simp only [Within, Nat.zero_add]
    have hp : p.Admits (point x y) ↔ p.Admits (point x []) :=
      ⟨h.admits_congr fun j hj => point_of_lt (hx ▸ hj),
        h.admits_congr fun j hj => (point_of_lt (hx ▸ hj)).symm⟩
    rw [hr.admits_iff hs hl, hw, h.satisfied_loaded_iff mode, h.tied_point_iff hx hxy, hp]
  refine ⟨⟨?_, fun hp => ⟨p.slacks x mode, ?_, ?_⟩⟩, ?_⟩
  · rintro ⟨y, hxy, hy⟩
    exact ((hadmits hxy).mp hy).1
  · rw [List.length_append, hx, h.length_slacks]
  · exact (hadmits (by rw [List.length_append, hx, h.length_slacks])).mpr ⟨hp, rfl⟩
  · exact fun y hxy => ⟨fun hy => ((hadmits hxy).mp hy).2, h.dot_objective_loaded hx hxy⟩

-- The points `(x, y)` of the disc of radius two with `x + y = 1`, where `x` is zero or one.
def chord : Problem ℚ where
  objective := [1, -1]
  matrix := {
    rows := 4
    cols := 2
    starts := [0, 2, 4]
    rowIndices := [0, 2, 0, 3]
    values := [1, 1, 1, 1] }
  rhs := [1, 2, 0, 0]
  partition := ⟨1, 0, [3]⟩
  booleans := [0]

theorem coldLoad_chord :
    ∃ cold m a,
      (Instance.coldLoad (ReferenceOptimizer.operations (ω := Unit)
        fun _ => pure (.error "down")) chord .auxiliary).Yields () cold () ∧
      cold.optimizer.model = some m ∧ m.assemble? m.columnBounds = some a ∧
      ∀ x : List ℚ, x.length = chord.variableCount →
        ((∃ y, (x ++ y).length = a.matrix.cols ∧ a.Admits (point x y)) ↔
          chord.Admits (point x [])) ∧
        ∀ y, (x ++ y).length = a.matrix.cols →
          (a.Admits (point x y) → y = chord.slacks x .auxiliary) ∧
          Vector.dot? m.objective (x ++ y) = Vector.dot? chord.objective x := by
  have h : 4 ≤ Starts.wordSize := by decide
  exact coldLoad_canonical _ .auxiliary () rfl ⟨h, (by decide : 2 ≤ 4).trans h⟩

end Problem
end ConicProgram
