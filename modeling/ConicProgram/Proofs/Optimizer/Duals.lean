import Mathlib.Algebra.BigOperators.Fin
import ConicProgram.Proofs.Model.Heads
import ConicProgram.Proofs.Optimizer.Systems

namespace ConicProgram

open Finset (range)

section Places

variable {α : Type} [Scalar α]

def Bounds.count (b : Bounds α) : Nat :=
  (if b.hasLower then 1 else 0) + if b.hasUpper then 1 else 0

namespace Model

def expressions (m : Model α) : List (AffineExpr α) :=
  m.cones.flatMap (·.expressions)

variable (m : Model α) (bounds : List (Bounds α)) (z : List α)

-- The rows of the bounds follow on those of the model, column by column.
def boundPlace (j : Nat) : Nat :=
  m.rowCount + ((bounds.take j).map Bounds.count).sum

def expressionPlace (k : Nat) : Nat :=
  m.rowCount + (bounds.map Bounds.count).sum + k

def lowerMultiplier (j : Fin bounds.length) : α :=
  if bounds[j].hasLower then z.getD (m.boundPlace bounds j) 0 else 0

-- The lower bound of a column comes first, if there is one.
def upperMultiplier (j : Fin bounds.length) : α :=
  if bounds[j].hasUpper then
    z.getD (m.boundPlace bounds j + if bounds[j].hasLower then 1 else 0) 0
  else 0

def expressionMultiplier (k : Nat) : α :=
  z.getD (m.expressionPlace bounds k) 0

end Model
end Places

variable {K : Type} [Field K] [LinearOrder K] [FloorRing K]

attribute [local instance] Scalar.exact

section Terms

variable {j : Nat}

theorem Row.totalAt_slackRow (r : Row K) :
    totalAt r.slackRow.terms j = r.sense.direction * r.coefficient j := by
  rw [Row.slackRow, totalAt_map_mul, totalAt_eq_entryAt r.coefficients.nodup_keys, entryAt,
    lookup_entries, coefficient]

theorem AffineExpr.totalAt_slackRow (e : AffineExpr K) :
    totalAt e.slackRow.terms j = -e.coefficient j := by
  have hn : totalAt e.slackRow.terms j = -1 * totalAt e.terms j := by
    rw [← totalAt_map_mul]
    simp [slackRow]
  rw [hn, neg_one_mul]
  rfl

end Terms

namespace SlackRow

variable {β : Type} {z : Nat → K} {f : SlackRow K → K} {i j : Nat} {rs ss : List (SlackRow K)}

-- A quantity of the rows, which are counted from `i` on, weighed by their multipliers.
def weighed (z : Nat → K) (f : SlackRow K → K) (i : Nat) : List (SlackRow K) → K
  | [] => 0
  | r :: rs => f r * z i + weighed z f (i + 1) rs

theorem weighed_append :
    weighed z f i (rs ++ ss) = weighed z f i rs + weighed z f (i + rs.length) ss := by
  induction rs generalizing i
  case nil => simp [weighed]
  case cons r rs hi =>
    rw [List.cons_append, weighed, weighed, hi, List.length_cons, Nat.add_assoc, Nat.add_comm 1]
    rw [add_assoc]

theorem weighed_map (xs : List β) (row : β → SlackRow K) :
    weighed z f i (xs.map row) = ∑ k : Fin xs.length, f (row xs[k]) * z (i + k) := by
  induction xs generalizing i
  case nil => rfl
  case cons x xs hi =>
    refine .trans ?_ (Fin.sum_univ_succ (n := xs.length) _).symm
    rw [List.map_cons, weighed, hi]
    simp [Nat.add_assoc, Nat.add_comm 1]

def ofBounds (b : Bounds K) (col : Nat) : List (SlackRow K) :=
  (b.blocks col).flatMap (·.rows)

theorem length_ofBounds (b : Bounds K) (col : Nat) : (ofBounds b col).length = b.count := by
  rw [ofBounds, Bounds.blocks, Bounds.count]
  cases b.hasLower <;> cases b.hasUpper <;> rfl

theorem weighed_ofBounds (b : Bounds K) (col : Nat) : weighed z f i (ofBounds b col) =
    (if b.hasLower then f ⟨[(col, -1)], -b.lower⟩ * z i else 0) +
      if b.hasUpper then f ⟨[(col, 1)], b.upper⟩ * z (i + if b.hasLower then 1 else 0) else 0 := by
  rw [ofBounds, Bounds.blocks]
  cases b.hasLower <;> cases b.hasUpper <;> simp [weighed]

-- The induction is on the columns, which are counted from `col` on. Each row of a bound moves the
-- following ones on.
theorem weighed_bounds (bounds : List (Bounds K)) (col : Nat) :
    weighed z f i (((bounds.zipIdx col).flatMap fun (b, j) => b.blocks j).flatMap (·.rows)) =
      ∑ k : Fin bounds.length, weighed z f (i + ((bounds.take k).map Bounds.count).sum)
        (ofBounds bounds[k] (col + k)) := by
  induction bounds generalizing i col
  case nil => rfl
  case cons b bounds hi =>
    refine .trans ?_ (Fin.sum_univ_succ (n := bounds.length) _).symm
    have hc : ((b.blocks col).flatMap (·.rows)).length = b.count := length_ofBounds b col
    rw [List.zipIdx_cons, List.flatMap_cons, List.flatMap_append, weighed_append, hi]
    simp [hc, ofBounds, Nat.add_assoc, Nat.add_comm 1]

theorem length_bounds (bounds : List (Bounds K)) (col : Nat) :
    (((bounds.zipIdx col).flatMap fun (b, j) => b.blocks j).flatMap (·.rows)).length =
      (bounds.map Bounds.count).sum := by
  induction bounds generalizing col
  case nil => rfl
  case cons b bounds hi =>
    rw [List.zipIdx_cons, List.flatMap_cons, List.flatMap_append, List.length_append, hi,
      List.map_cons, List.sum_cons, ← length_ofBounds b col, ofBounds]

theorem weighed_eq_sum (rs : List (SlackRow K)) :
    weighed z f 0 rs = ∑ k ∈ range rs.length, (rs[k]?.map f).getD 0 * z k := by
  have h := weighed_map (z := z) (f := f) (i := 0) rs id
  rw [List.map_id] at h
  rw [h, Finset.sum_range]
  simp

end SlackRow

namespace Model

variable {m : Model K} {bounds : List (Bounds K)} {z : List K}

theorem getD_rowDuals (h : m.rowCount ≤ z.length) (i : Fin m.rows.length) :
    (m.rowDuals z).getD i 0 = m.rows[i].sense.direction * z.getD i 0 := by
  have hz : i < z.length := i.isLt.trans_le h
  have hr : m.rows[i.val]? = some m.rows[i] := List.getElem?_eq_getElem i.isLt
  rw [List.getD_eq_getElem?_getD, List.getD_eq_getElem?_getD, rowDuals, List.getElem?_zipWith,
    hr, List.getElem?_eq_getElem hz]
  cases hs : m.rows[i.val].sense <;> simp [hs, RowSense.direction]

theorem rows_cones_eq : (m.cones.map (·.block)).flatMap (·.rows) =
    m.expressions.map (·.slackRow) := by
  rw [List.flatMap_map, expressions, List.map_flatMap]
  rfl

-- Any quantity of the rows of the system is the sum of what the rows of the model, the bounds and
-- the expressions have of it.
theorem weighed_slackRows {f : SlackRow K → K} {g : Row K → K} (h : m.rowCount ≤ z.length)
    (hg : ∀ r : Row K, f r.slackRow = r.sense.direction * g r) :
    SlackRow.weighed (z.getD · 0) f 0 (m.slackRows bounds) =
      ∑ i : Fin m.rows.length, (m.rowDuals z).getD i 0 * g m.rows[i] +
      ∑ j : Fin bounds.length, (f ⟨[(j.val, -1)], -bounds[j].lower⟩ * m.lowerMultiplier bounds z j +
        f ⟨[(j.val, 1)], bounds[j].upper⟩ * m.upperMultiplier bounds z j) +
      ∑ k : Fin m.expressions.length,
        f m.expressions[k].slackRow * m.expressionMultiplier bounds z k := by
  rw [slackRows_eq, rows_cones_eq, boundBlocks, ← List.append_assoc, SlackRow.weighed_append,
    SlackRow.weighed_append, SlackRow.weighed_bounds, SlackRow.weighed_map, SlackRow.weighed_map,
    List.length_append, SlackRow.length_bounds, List.length_map]
  refine congrArg₂ _ (congrArg₂ _ (Finset.sum_congr rfl fun i _ => ?rows)
    (Finset.sum_congr rfl fun j _ => ?limits)) (Finset.sum_congr rfl fun k _ => ?expressions)
  case rows =>
    rw [hg, getD_rowDuals h, Nat.zero_add]
    ring
  case limits =>
    rw [SlackRow.weighed_ofBounds, lowerMultiplier, upperMultiplier, boundPlace]
    simp [rowCount]
  case expressions => simp [expressionMultiplier, expressionPlace, rowCount]

variable {a : Assembled K}

theorem Totals.length_rowDuals (h : m.Totals bounds a) (hz : z.length = a.matrix.rows) :
    m.rowCount ≤ z.length ∧ (m.rowDuals z).length = m.rowCount := by
  have hl : m.rowCount ≤ z.length := by
    rw [hz, h.rows, slackRows_eq, List.length_append, List.length_map]
    exact Nat.le_add_right ..
  exact ⟨hl, by rw [rowDuals, List.length_zipWith]; exact Nat.min_eq_left hl⟩

theorem Totals.sum_column (h : m.Totals bounds a) (hz : z.length = a.matrix.rows)
    (j : Fin bounds.length) :
    ∑ i ∈ range a.matrix.rows, a.matrix.entry i j * z.getD i 0 =
      ∑ i : Fin m.rows.length, (m.rowDuals z).getD i 0 * m.rows[i].coefficient j +
        m.upperMultiplier bounds z j - m.lowerMultiplier bounds z j -
      ∑ k : Fin m.expressions.length,
        m.expressions[k].coefficient j * m.expressionMultiplier bounds z k := by
  have hw := SlackRow.weighed_eq_sum (z := (z.getD · 0)) (f := fun r => totalAt r.terms j)
    (m.slackRows bounds)
  have ht (c : Nat) (v : K) : totalAt [(c, v)] j = if j = c then v else 0 := by
    rw [totalAt_cons]
    exact add_zero _
  have hb : ∑ c : Fin bounds.length, ((if j = c.val then -1 else 0) * m.lowerMultiplier bounds z c +
      (if j = c.val then 1 else 0) * m.upperMultiplier bounds z c) =
        m.upperMultiplier bounds z j - m.lowerMultiplier bounds z j := by
    rw [Finset.sum_eq_single j]
    · simp [sub_eq_neg_add]
    · intro c _ hc
      simp [Fin.val_inj, Ne.symm hc]
    · simp
  rw [weighed_slackRows (h.length_rowDuals hz).1 fun r => r.totalAt_slackRow] at hw
  simp only [ht, hb, AffineExpr.totalAt_slackRow, neg_mul, Finset.sum_neg_distrib] at hw
  refine .trans ?_ (hw.symm.trans (by ring))
  rw [h.rows]
  refine Finset.sum_congr rfl fun i _ => ?_
  rw [h.entries]
  cases (m.slackRows bounds)[i]? <;> rfl

theorem Totals.sum_rhs (h : m.Totals bounds a) (hz : z.length = a.matrix.rows) :
    ∑ i ∈ range a.matrix.rows, a.rhs.getD i 0 * z.getD i 0 =
      ∑ i : Fin m.rows.length, (m.rowDuals z).getD i 0 * m.rows[i].rhs +
      ∑ j : Fin bounds.length, (bounds[j].upper * m.upperMultiplier bounds z j -
        bounds[j].lower * m.lowerMultiplier bounds z j) +
      ∑ k : Fin m.expressions.length,
        m.expressions[k].constant * m.expressionMultiplier bounds z k := by
  have hw := SlackRow.weighed_eq_sum (z := (z.getD · 0)) (f := (·.rhs)) (m.slackRows bounds)
  rw [weighed_slackRows (h.length_rowDuals hz).1 fun _ => rfl] at hw
  refine .trans ?_ (hw.symm.trans ?_)
  case refine_1 =>
    rw [h.rows, h.rhs]
    refine Finset.sum_congr rfl fun i _ => ?_
    rw [List.getD_eq_getElem?_getD, List.getElem?_map]
  case refine_2 =>
    refine congrArg₂ _ (congrArg₂ _ rfl (Finset.sum_congr rfl fun j _ => ?_)) rfl
    ring

end Model

-- The multipliers balance the objective in each column of the system.
def Assembled.Stationary (a : Assembled K) (objective z : List K) : Prop :=
  ∀ j < a.matrix.cols,
    objective.getD j 0 + ∑ i ∈ range a.matrix.rows, a.matrix.entry i j * z.getD i 0 = 0

-- They do so in each column of the model, with the rows as they are stated.
def Model.Stationary (m : Model K) (bounds : List (Bounds K)) (z : List K) : Prop :=
  ∀ j : Fin bounds.length, m.objective.getD j 0 +
    (∑ i : Fin m.rows.length, (m.rowDuals z).getD i 0 * m.rows[i].coefficient j +
      m.upperMultiplier bounds z j - m.lowerMultiplier bounds z j -
    ∑ k : Fin m.expressions.length,
      m.expressions[k].coefficient j * m.expressionMultiplier bounds z k) = 0

namespace Model

theorem Totals.stationary_iff {m : Model K} {bounds : List (Bounds K)} {a : Assembled K}
    {z : List K} (h : m.Totals bounds a) (hl : bounds.length = m.columnCount)
    (hz : z.length = a.matrix.rows) : a.Stationary m.objective z ↔ m.Stationary bounds z := by
  simp only [Model.Stationary, ← h.sum_column hz]
  rw [Assembled.Stationary, h.cols, ← hl]
  exact ⟨fun h j => h j j.isLt, fun h j hj => h ⟨j, hj⟩⟩

end Model

namespace ReferenceOptimizer

variable {ω : Type}

-- With one pair of bounds for each column there is a system. Whatever its multipliers are, there is
-- one dual for each row of the model, and each column of the system, and its right-hand side,
-- weighed by the multipliers, are those of the rows as they are stated, weighed by the duals, with
-- what the bounds and the expressions add.
theorem assemble?_rowDuals [IsStrictOrderedRing K] {engine : Engine K ω}
    {c : Context K (ReferenceOptimizer K) (ω × List (EngineCall K))} {m : Model K}
    {bounds : List (Bounds K)} (hc : Reached engine c) (hm : c.state.model = some m)
    (hl : bounds.length = m.columnCount) :
    ∃ a, m.assemble? bounds = some a ∧ ∀ z : List K, z.length = a.matrix.rows →
      (m.rowDuals z).length = m.rowCount ∧
      (∀ j : Fin bounds.length, ∑ i ∈ range a.matrix.rows, a.matrix.entry i j * z.getD i 0 =
        ∑ i : Fin m.rows.length, (m.rowDuals z).getD i 0 * m.rows[i].coefficient j +
          m.upperMultiplier bounds z j - m.lowerMultiplier bounds z j -
        ∑ k : Fin m.expressions.length,
          m.expressions[k].coefficient j * m.expressionMultiplier bounds z k) ∧
      ∑ i ∈ range a.matrix.rows, a.rhs.getD i 0 * z.getD i 0 =
        ∑ i : Fin m.rows.length, (m.rowDuals z).getD i 0 * m.rows[i].rhs +
        ∑ j : Fin bounds.length, (bounds[j].upper * m.upperMultiplier bounds z j -
          bounds[j].lower * m.lowerMultiplier bounds z j) +
        ∑ k : Fin m.expressions.length,
          m.expressions[k].constant * m.expressionMultiplier bounds z k ∧
      (a.Stationary m.objective z ↔ m.Stationary bounds z) := by
  have hin := (hc.closed m hm).toInside
  have ⟨a, ha, h⟩ := Model.exists_totals (hin.below_slackRows hl.le)
  exact ⟨a, ha, fun z hz => ⟨(h.length_rowDuals hz).2, h.sum_column hz, h.sum_rhs hz,
    h.stationary_iff hl hz⟩⟩

-- With bounds of another branch. The last row is one of the rows that are negated.
theorem assemble?_rowDuals_mixed : ∃ a, mixedContext.state.model = some mixed ∧
    mixed.assemble? [⟨-Bounds.unlimited, 1⟩, ⟨0, 1⟩] = some a ∧ a.matrix.rows = 9 ∧
    mixed.rowDuals [1, 2, 3, 4, 5, 6, 7, 8, 9] = [1, 2, -3] ∧
    ∑ i ∈ range 9, a.matrix.entry i 0 * (i + 1) = -10 := by
  have hc : Reached (fun _ => pure (.error "down")) mixedContext := ⟨_, _, _, _, rfl⟩
  have hl : [(⟨-Bounds.unlimited, 1⟩ : Bounds ℚ), ⟨0, 1⟩].length = mixed.columnCount := rfl
  have ⟨a, ha, hz⟩ := assemble?_rowDuals hc model_mixedContext hl
  have hin := (hc.closed mixed model_mixedContext).toInside
  have ⟨b, hb, h⟩ := Model.exists_totals (hin.below_slackRows hl.le)
  cases ha.symm.trans hb
  have hr : a.matrix.rows = 9 := h.rows.trans (by decide +kernel)
  have ⟨_, hcol, _⟩ := hz [1, 2, 3, 4, 5, 6, 7, 8, 9] hr.symm
  refine ⟨a, model_mixedContext, ha, hr, rfl, ?_⟩
  have hcol := hcol ⟨0, by decide⟩
  rw [hr] at hcol
  have hs : ∑ i ∈ range 9, a.matrix.entry i 0 * (i + 1) =
      ∑ i ∈ range 9, a.matrix.entry i 0 * [1, 2, 3, 4, 5, 6, 7, 8, 9].getD i 0 := by
    norm_num [Finset.sum_range_succ]
  rw [hs]
  refine hcol.trans ?_
  decide +kernel

end ReferenceOptimizer
end ConicProgram
