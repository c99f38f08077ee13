import Mathlib.Algebra.Order.BigOperators.Group.List
import ConicProgram.Proofs.Model.Feasibility
import ConicProgram.Proofs.Optimizer.Search

namespace ConicProgram

variable {K σ ω : Type} [Field K] [LinearOrder K] [FloorRing K]

attribute [local instance] Scalar.exact

section Constraints

-- The constraints with room for an error in each row or expression.
def Row.HoldsUpTo (r : Row K) (error : K) (x : Nat → K) : Prop :=
  match r.sense with
  | .equal => r.value x ≤ r.rhs + error ∧ r.rhs ≤ r.value x + error
  | .atMost => r.value x ≤ r.rhs + error
  | .atLeast => r.rhs ≤ r.value x + error

def ConeConstraint.HoldsUpTo (c : ConeConstraint K) (error : AffineExpr K → K) (x : Nat → K) :
    Prop :=
  0 ≤ c.apex.value x + error c.apex ∧
    (c.legs.map fun e => max 0 (|e.value x| - error e) ^ 2).sum ≤
      (c.apex.value x + error c.apex) ^ 2

variable {r : Row K} {c : ConeConstraint K} {error : K} {errors : AffineExpr K → K}
  {x y : Nat → K}

theorem ConeConstraint.holds_iff : c.Holds x ↔ 0 ≤ c.apex.value x ∧
    (c.legs.map fun e => e.value x ^ 2).sum ≤ c.apex.value x ^ 2 := by
  have h := foldl_add_eq_sum (c.legs.map fun e => e.value x * e.value x) id 0
  rw [List.map_id, zero_add] at h
  simp only [ConeConstraint.Holds, pow_two]
  exact and_congr_right fun _ => iff_of_eq (congrArg (· ≤ _) h)

theorem Row.holdsUpTo_zero_iff : r.HoldsUpTo 0 x ↔ r.Holds x := by
  unfold HoldsUpTo Holds
  cases r.sense <;> simp only [add_zero]

variable [IsStrictOrderedRing K]

theorem ConeConstraint.holdsUpTo_iff (h : ∀ e ∈ c.expressions, errors e = 0) :
    c.HoldsUpTo errors x ↔ c.Holds x := by
  have ⟨ha, hl⟩ := List.forall_mem_cons.mp h
  have hlegs : (c.legs.map fun e => max 0 (|e.value x| - errors e) ^ 2) =
      c.legs.map fun e => e.value x ^ 2 := by
    refine List.map_congr_left fun e he => ?_
    rw [hl e he, sub_zero, max_eq_right (abs_nonneg _), sq_abs]
  rw [HoldsUpTo, holds_iff, ha, hlegs, add_zero]

theorem Row.Holds.upTo (h : r.Holds y) (he : |r.value x - r.value y| ≤ error) :
    r.HoldsUpTo error x := by
  have ⟨h₁, h₂⟩ := abs_le.mp he
  unfold Row.Holds at h
  unfold Row.HoldsUpTo
  cases hs : r.sense <;> simp only [hs] at h ⊢
  case equal =>
    constructor
    case left => linarith [h.1]
    case right => linarith [h.2]
  all_goals linarith

-- An apex is at least what it was, but for its error, and a leg no shorter than it is, but for its
-- own.
theorem ConeConstraint.Holds.upTo (h : c.Holds y)
    (he : ∀ e ∈ c.expressions, |e.value x - e.value y| ≤ errors e) : c.HoldsUpTo errors x := by
  have ⟨ha, hl⟩ := List.forall_mem_cons.mp he
  have ⟨h₀, hs⟩ := holds_iff.mp h
  have hapex : c.apex.value y ≤ c.apex.value x + errors c.apex := by
    linarith [(abs_le.mp ha).1]
  have hleg : ∀ e ∈ c.legs, max 0 (|e.value x| - errors e) ^ 2 ≤ e.value y ^ 2 := by
    intro e he
    rw [← sq_abs (e.value y)]
    refine pow_le_pow_left₀ (le_max_left ..) (max_le (abs_nonneg _) ?_) 2
    linarith [hl e he, abs_sub_abs_le_abs_sub (e.value x) (e.value y)]
  refine ⟨h₀.trans hapex, ?_⟩
  calc (c.legs.map fun e => max 0 (|e.value x| - errors e) ^ 2).sum
      ≤ (c.legs.map fun e => e.value y ^ 2).sum := List.sum_le_sum hleg
    _ ≤ c.apex.value y ^ 2 := hs
    _ ≤ (c.apex.value x + errors c.apex) ^ 2 := pow_le_pow_left₀ h₀ hapex 2

end Constraints

section Rounding

variable [IsStrictOrderedRing K]

theorem Scalar.exact_round_eq {v : K} {z : ℤ} (h : |v - z| < 1 / 2) : Scalar.round v = (z : K) := by
  have ⟨h₁, h₂⟩ := abs_lt.mp h
  have hf : ⌊v + 1 / 2⌋ = z := by
    rw [Int.floor_eq_iff]
    constructor <;> linarith
  have hc : ⌈v - 1 / 2⌉ = z := by
    rw [Int.ceil_eq_iff]
    constructor <;> linarith
  simp only [Scalar.round, hf, hc, ite_self]

namespace Model

-- How much the discrete columns count for among the terms.
def discreteWeight (m : Model K) (terms : List (Nat × K)) : K :=
  ((terms.filter (·.1 ∈ m.discreteColumns)).map fun t => |t.2|).sum

-- The discrete coordinates have been taken to integers that are near, and no others have moved.
structure RoundsTo (m : Model K) (tolerance : K) (y x : List K) : Prop where
  length   : x.length = y.length
  discrete : ∀ j ∈ m.discreteColumns, ∃ (v : K) (z : ℤ),
    y[j]? = some v ∧ x[j]? = some (z : K) ∧ |z - v| ≤ tolerance
  others   : ∀ j, j ∉ m.discreteColumns → x[j]? = y[j]?

-- The model is satisfied up to what the discrete columns can move by the tolerance each, and
-- without error where there are none of them.
structure AdmitsUpTo (m : Model K) (tolerance : K) (x : List K) : Prop where
  rows            : ∀ r ∈ m.rows,
    r.HoldsUpTo (tolerance * m.discreteWeight r.coefficients.entries) (x.getD · 0)
  cones           : ∀ c ∈ m.cones,
    c.HoldsUpTo (fun e => tolerance * m.discreteWeight e.terms) (x.getD · 0)
  continuousRows  : ∀ r ∈ m.rows,
    (∀ t ∈ r.coefficients.entries, t.1 ∉ m.discreteColumns) → r.Holds (x.getD · 0)
  continuousCones : ∀ c ∈ m.cones,
    (∀ e ∈ c.expressions, ∀ t ∈ e.terms, t.1 ∉ m.discreteColumns) → c.Holds (x.getD · 0)

variable {m : Model K} {tolerance : K} {x y : List K} {j : Nat} {terms : List (Nat × K)}

omit [IsStrictOrderedRing K] in
theorem discreteWeight_eq_zero (h : ∀ t ∈ terms, t.1 ∉ m.discreteColumns) :
    m.discreteWeight terms = 0 := by
  have hn : terms.filter (·.1 ∈ m.discreteColumns) = [] :=
    List.filter_eq_nil_iff.mpr fun t ht => by simpa using h t ht
  rw [discreteWeight, hn]
  rfl

namespace RoundsTo

theorem abs_sub_le (h : m.RoundsTo tolerance y x) (j : Nat) :
    |x.getD j 0 - y.getD j 0| ≤ if j ∈ m.discreteColumns then tolerance else 0 := by
  rw [List.getD_eq_getElem?_getD, List.getD_eq_getElem?_getD]
  split
  case isTrue hj =>
    have ⟨v, z, hy, hx, hz⟩ := h.discrete j hj
    rwa [hx, hy]
  case isFalse hj =>
    rw [h.others j hj, sub_self, abs_zero]

theorem abs_sum_sub_le (h : m.RoundsTo tolerance y x) (terms : List (Nat × K)) :
    |(terms.map fun t => t.2 * x.getD t.1 0).sum - (terms.map fun t => t.2 * y.getD t.1 0).sum| ≤
      tolerance * m.discreteWeight terms := by
  induction terms
  case nil => simp [discreteWeight]
  case cons t terms hi =>
    have ht : |t.2 * (x.getD t.1 0 - y.getD t.1 0)| ≤
        tolerance * if t.1 ∈ m.discreteColumns then |t.2| else 0 := by
      rw [abs_mul, mul_comm]
      refine (mul_le_mul_of_nonneg_right (h.abs_sub_le t.1) (abs_nonneg _)).trans_eq ?_
      split <;> simp
    have hw : m.discreteWeight (t :: terms) =
        (if t.1 ∈ m.discreteColumns then |t.2| else 0) + m.discreteWeight terms := by
      unfold discreteWeight
      rw [List.filter_cons]
      by_cases hj : t.1 ∈ m.discreteColumns <;> simp [hj]
    rw [List.map_cons, List.map_cons, List.sum_cons, List.sum_cons, hw, mul_add]
    calc |t.2 * x.getD t.1 0 + _ - (t.2 * y.getD t.1 0 + _)|
        = |t.2 * (x.getD t.1 0 - y.getD t.1 0) + ((terms.map fun t => t.2 * x.getD t.1 0).sum -
            (terms.map fun t => t.2 * y.getD t.1 0).sum)| := by ring_nf
      _ ≤ _ := abs_add_le _ _
      _ ≤ _ := add_le_add ht hi

theorem abs_row_sub_le (h : m.RoundsTo tolerance y x) (r : Row K) :
    |r.value (x.getD · 0) - r.value (y.getD · 0)| ≤
      tolerance * m.discreteWeight r.coefficients.entries := by
  rw [Row.value_eq_sum, Row.value_eq_sum]
  exact h.abs_sum_sub_le _

theorem abs_expression_sub_le (h : m.RoundsTo tolerance y x) (e : AffineExpr K) :
    |e.value (x.getD · 0) - e.value (y.getD · 0)| ≤ tolerance * m.discreteWeight e.terms := by
  rw [AffineExpr.value_eq_sum, AffineExpr.value_eq_sum, add_sub_add_left_eq_sub]
  exact h.abs_sum_sub_le _

theorem admitsUpTo (h : m.RoundsTo tolerance y x) (hy : m.AdmitsPoint y) :
    m.AdmitsUpTo tolerance x where
  rows r hr := (hy.1 r hr).upTo (h.abs_row_sub_le r)
  cones c hc := (hy.2 c hc).upTo fun e _ => h.abs_expression_sub_le e
  continuousRows r hr ht := by
    have he := h.abs_row_sub_le r
    rw [discreteWeight_eq_zero ht, mul_zero] at he
    exact Row.holdsUpTo_zero_iff.mp ((hy.1 r hr).upTo he)
  continuousCones c hc ht := by
    have hz : ∀ e ∈ c.expressions, tolerance * m.discreteWeight e.terms = 0 := fun e he => by
      rw [discreteWeight_eq_zero (ht e he), mul_zero]
    refine (ConeConstraint.holdsUpTo_iff hz).mp ?_
    exact (hy.2 c hc).upTo fun e _ => h.abs_expression_sub_le e

-- A point that is integral already stays where it is.
theorem eq_of_integralAt (h : m.RoundsTo tolerance y x) (ht : tolerance < 1 / 2)
    (hy : m.IntegralAt y) : x = y := by
  refine List.ext_getElem? fun j => ?_
  by_cases hj : j ∈ m.discreteColumns
  case neg => exact h.others j hj
  case pos =>
    have ⟨v, z, hv, hx, hz⟩ := h.discrete j hj
    have ⟨w, hw⟩ := hy j hj
    cases hv.symm.trans hw
    have hlt : |((z - w : ℤ) : K)| < 1 := by
      push_cast
      linarith
    have he : z - w = 0 := by
      rw [← Int.abs_lt_one_iff]
      exact_mod_cast hlt
    rw [hx, hw, sub_eq_zero.mp he]

end RoundsTo
end Model
end Rounding

namespace Search

variable {m : Model K} {engine : Engine K ω} {controls : Controls K} {tolerance : K}
  {s s' : Search K} {c c' : Context K σ ω} {box : List (Bounds K)}
  {pending : List (List (Bounds K))} {nodes : Nat} {r : Relaxation K} {x y : List K}

theorem roundsTo_of_integralPoint? [IsStrictOrderedRing K] (ht : tolerance < 1 / 2)
    (hn : m.NearlyIntegralAt tolerance y) (hl : y.length = m.columnCount)
    (h : integralPoint? m m.discreteColumns y = some x) : m.RoundsTo tolerance y x := by
  unfold integralPoint? at h
  simp only [Option.bind_eq_bind, Option.bind_eq_some_iff] at h
  have ⟨_, _, h⟩ := h
  rw [← hl, List.take_length] at h
  cases h
  constructor
  case length => exact Lists.length_foldl_modify ..
  case discrete =>
    intro j hj
    have ⟨v, hv, z, hz⟩ := hn j hj
    have ⟨n, hc⟩ := Nat.exists_eq_succ_of_ne_zero (List.count_pos_iff.mpr hj).ne'
    refine ⟨v, z, hv, ?_, by rwa [abs_sub_comm]⟩
    -- A column that is named again is an integer by then.
    rw [Lists.getElem?_foldl_modify, hv, Option.map_some, hc, Function.iterate_succ_apply,
      Scalar.exact_round_eq (hz.trans_lt ht),
      Function.iterate_fixed (Scalar.exact_round_intCast z)]
  case others =>
    intro j hj
    rw [Lists.getElem?_foldl_modify, List.count_eq_zero_of_not_mem hj]
    exact Option.map_id_apply

end Search

-- The reply of an engine whose solutions are points of the box that satisfy the model.
def Relaxation.Feasible (m : Model K) (box : List (Bounds K)) (r : Relaxation K) : Prop :=
  r.outcome = .solved → InBox box r.primal ∧ m.AdmitsPoint r.primal

-- The point is a point of the model, rounded in the discrete columns.
def Model.RoundedPoint (m : Model K) (tolerance : K) (x : List K) : Prop :=
  ∃ y, InBox m.columnBounds y ∧ m.AdmitsPoint y ∧ m.RoundsTo tolerance y x

namespace Search

variable {m : Model K} {engine : Engine K ω} {controls : Controls K} {tolerance : K}
  {s s' : Search K} {c c' : Context K σ ω} {box : List (Bounds K)}
  {pending : List (List (Bounds K))} {nodes : Nat} {r : Relaxation K}

-- Every box that is asked about on the way is answered so.
def Faithful (m : Model K) (engine : Engine K ω) (controls : Controls K)
    (a : Search K × Context K σ ω) : Prop :=
  ∀ {s c box pending r c'}, Reaches m engine controls a (s, c) → s.pending = box :: pending →
    (m.relax engine controls box).perform c = (.ok r, c') → r.Feasible m box

-- What holds of a search at every node.
structure Rounded (m : Model K) (tolerance : K) (s : Search K) : Prop where
  within    : ∀ box ∈ s.pending, ∀ x, InBox box x → InBox m.columnBounds x
  incumbent : ∀ i, s.incumbent = some i → m.RoundedPoint tolerance i.point

namespace Rounded

theorem start (m : Model K) (tolerance : K) :
    Rounded m tolerance { pending := [m.columnBounds] } where
  within := by simp
  incumbent := by simp

-- A box is closed.
theorem next {complete : Bool} (h : Rounded m tolerance s) (hp : s.pending = box :: pending) :
    Rounded m tolerance { s with pending, nodes, complete } where
  within b hb := h.within b (hp ▸ List.mem_cons_of_mem _ hb)
  incumbent := h.incumbent

theorem offered {i : Incumbent K} (h : Rounded m tolerance s)
    (hi : m.RoundedPoint tolerance i.point) : Rounded m tolerance (s.offered i) := by
  unfold Search.offered
  split
  case isTrue =>
    refine ⟨h.within, fun j hj => ?_⟩
    cases hj
    exact hi
  case isFalse => exact h

variable [IsStrictOrderedRing K]

theorem settle (ht : controls.integrality < 1 / 2) (h : Rounded m controls.integrality s)
    (hp : s.pending = box :: pending) (he : r.Feasible m box) (hr : r.outcome = .solved)
    (hs : (settle m controls m.discreteColumns box r { s with pending, nodes }).perform c =
      (.ok (.go s'), c')) :
    Rounded m controls.integrality s' := by
  have ⟨hbox, hadmits⟩ := he hr
  have hx := h.within box (hp ▸ List.mem_cons_self ..) r.primal hbox
  have ⟨_, _, hv, hs⟩ := settle_cases hs
  cases hv
  cases hs
  case bounded => exact h.next hp
  case split hb =>
    refine ⟨fun b hb x hx => ?_, h.incumbent⟩
    rcases List.mem_append.mp hb with hb | hb
    case inl =>
      exact h.within box (hp ▸ List.mem_cons_self ..) x
        (Branch.inBox_of_child hbox (Branch.select?_some ‹_›).2 hb hx)
    case inr => exact h.within b (hp ▸ List.mem_cons_of_mem _ hb) x hx
  case integral hn hpt ho =>
    have hl : r.primal.length = m.columnCount := by
      simp [hx.length_eq, Model.columnBounds, Model.columnCount]
    have hrounds := roundsTo_of_integralPoint? ht (Branch.select?_none hn) hl hpt
    exact (h.next hp).offered ⟨_, hx, hadmits, hrounds⟩

-- One visit keeps what holds of the search.
theorem visit (ht : controls.integrality < 1 / 2) (h : Rounded m controls.integrality s)
    (hp : s.pending = box :: pending)
    (he : ∀ {r d}, (m.relax engine controls box).perform c = (.ok r, d) → r.Feasible m box)
    (hv : (visit m engine controls m.discreteColumns box
      { s with pending, nodes := s.nodes + 1 }).perform c = (.ok (.go s'), c')) :
    Rounded m controls.integrality s' := by
  rcases visit_cases hv with ⟨_, hs⟩ | ⟨r, d, hr, hv⟩
  case inl =>
    cases hs
    exact h.next hp
  case inr =>
    rcases hv with ⟨ho, hs⟩ | ⟨_, hs⟩ | hs | hs | hs <;> try cases hs
    · exact h.settle ht hp (he hr) ho hs
    · exact h.next hp
    · exact h.next hp

end Rounded
end Search

-- What a finished search says of its incumbent.
structure SearchResult.Rounded (m : Model K) (tolerance : K) (found : SearchResult K) : Prop where
  status    : found.incumbent.isSome ↔ found.status = .optimal ∨ found.status = .solution
  incumbent : ∀ x, found.incumbent = some x → m.RoundedPoint tolerance x

namespace Search

variable {m : Model K} {engine : Engine K ω} {controls : Controls K} {tolerance : K}
  {s : Search K} {c c' : Context K σ ω}

theorem Rounded.result (h : Rounded m tolerance s) : s.result.Rounded m tolerance where
  status := s.result_isSome_iff
  incumbent x hx := by
    have ⟨i, hi, hx⟩ := Option.map_eq_some_iff.mp hx
    exact hx ▸ h.incumbent i hi

-- A run of visits keeps it, and so it holds at the end, wherever the budget runs out.
theorem Rounded.explore [IsStrictOrderedRing K] {a : Search K × Context K σ ω} {budget : Nat}
    {found : SearchResult K} (ht : controls.integrality < 1 / 2)
    (ha : Faithful m engine controls a) (hr : Reaches m engine controls a (s, c))
    (h : Rounded m controls.integrality s)
    (hf : (explore m engine controls m.discreteColumns budget s).perform c = (.ok found, c')) :
    found.Rounded m controls.integrality := by
  have hgo {s c box pending s' d}
      (h : Reaches m engine controls a (s, c) ∧ Rounded m controls.integrality s)
      (hp : s.pending = box :: pending)
      (hv : (Search.visit m engine controls m.discreteColumns box
        { s with pending, nodes := s.nodes + 1 }).perform c = (.ok (.go s'), d)) :
      Reaches m engine controls a (s', d) ∧ Rounded m controls.integrality s' :=
    ⟨h.1.visit hp hv, h.2.visit ht hp (ha h.1 hp) hv⟩
  rcases explore_cases hgo ⟨hr, h⟩ hf with ⟨s', d, ⟨_, h⟩, ⟨_, rfl⟩ | ⟨_, rfl⟩⟩ |
    ⟨status, nodes, hs, rfl⟩
  · exact h.result
  · exact (⟨h.within, h.incumbent⟩ : Rounded _ _ { s' with complete := false }).result
  · rcases hs with rfl | rfl <;> constructor <;> simp

end Search

-- Over an engine whose solutions satisfy the model, an incumbent is a point of the model with the
-- discrete coordinates rounded. It satisfies the rows and the constraints up to what the rounding
-- moves them by, and it is that point if the point was integral.
theorem Model.search_rounded [IsStrictOrderedRing K] {m : Model K} {engine : Engine K ω}
    {controls : Controls K} {c c' : Context K σ ω} {found : SearchResult K}
    (ht : controls.integrality < 1 / 2)
    (he : Search.Faithful m engine controls ({ pending := [m.columnBounds] }, c))
    (hf : (m.search engine controls).perform c = (.ok found, c')) :
    (found.incumbent.isSome ↔ found.status = .optimal ∨ found.status = .solution) ∧
    ∀ x, found.incumbent = some x → m.AdmitsUpTo controls.integrality x ∧
      ∃ y, InBox m.columnBounds y ∧ m.AdmitsPoint y ∧ m.RoundsTo controls.integrality y x ∧
        (m.IntegralAt y → x = y) := by
  have h := (Search.Rounded.start m _).explore ht he .refl hf
  refine ⟨h.status, fun x hx => ?_⟩
  have ⟨y, hbox, hadmits, hrounds⟩ := h.incumbent x hx
  exact ⟨hrounds.admitsUpTo hadmits, y, hbox, hadmits, hrounds, hrounds.eq_of_integralAt ht⟩

section Offset

-- One integer column that a row ties to a number that is none, but near one, and an engine that
-- knows the answer.
def Model.offset : Model ℚ where
  rows := [{ sense := .equal, rhs := 15 / 8, coefficients := .ofList [(0, 1)] }]
  columns := [⟨⟨0, 4⟩, .integer⟩]
  objective := [1]
  cones := []

def Engine.offset : Engine ℚ Unit :=
  fun _ => pure (.ok ⟨.solved, [15 / 8], [], 15 / 8⟩)

theorem Model.offset_admitsPoint_iff {v : ℚ} : offset.AdmitsPoint [v] ↔ v = 15 / 8 := by
  have hv : Row.value ⟨.equal, 15 / 8, .ofList [(0, 1)]⟩ (fun j => [v].getD j 0) = v :=
    (zero_add _).trans (one_mul v)
  simp only [AdmitsPoint, Satisfied, offset, List.forall_mem_singleton, Row.Holds, hv]
  rw [and_iff_left (List.forall_mem_nil _), le_antisymm_iff]

theorem Model.offset_objectiveAt? (v : ℚ) : offset.objectiveAt? [v] = some v := by
  simp [objectiveAt?, offset, columnCount, Vector.dot?]

theorem Model.offset_scoped : offset.Scoped where
  rows := by decide
  cones := nofun
  terms := nofun

theorem Model.offset_feasible :
    Relaxation.Feasible .offset offset.columnBounds ⟨.solved, [15 / 8], [], 15 / 8⟩ := by
  refine fun _ => ⟨.mk rfl fun {j b v} hb hv => ?_, offset_admitsPoint_iff.mpr rfl⟩
  have hbox : offset.columnBounds = [⟨0, 4⟩] := rfl
  rw [hbox] at hb
  cases j
  case zero => cases hb; cases hv; norm_num
  case succ j => cases hb

theorem Model.yields_relax_offset :
    (offset.relax .offset .capped offset.columnBounds : Action ℚ Unit Unit _ _).Yields ()
      ⟨.solved, [15 / 8], [], 15 / 8⟩ () := by
  have ⟨a, ha, _⟩ : ∃ a, offset.assemble? offset.columnBounds = some a ∧ _ :=
    offset_scoped.exists_assemble? le_rfl
  exact offset.yields_relax (fun _ => rfl) ha nofun .capped ()

namespace Search

theorem yields_visit_offset :
    (visit .offset .offset .capped Model.offset.discreteColumns Model.offset.columnBounds
      { pending := [], nodes := 1 } : Action ℚ Unit Unit _ _).Yields ()
        (.go { pending := [], nodes := 1, incumbent := some ⟨2, [2]⟩ }) () := by
  have hd : Model.offset.discreteColumns = [0] := rfl
  have hbox : Model.offset.columnBounds = [⟨0, 4⟩] := rfl
  have he : isEmptyBox Model.offset.columnBounds Controls.capped.integrality = false := by
    norm_num [isEmptyBox, hbox, Controls.capped]
  have hs : Branch.select? [15 / 8] [0] Controls.capped.integrality = some none := by
    have hf : Scalar.floor (15 / 8 : ℚ) = 1 := by
      have hz : ⌊(15 / 8 : ℚ)⌋ = 1 := Int.floor_eq_iff.mpr (by norm_num)
      rw [Scalar.exact_floor, hz, Int.cast_one]
    norm_num [Branch.select?, Branch.fractionality, hf, Controls.capped]
  have hp : integralPoint? .offset [0] [15 / 8] = some [2] := by
    have hr : Scalar.round (15 / 8 : ℚ) = (2 : ℤ) := Scalar.exact_round_eq (by norm_num [abs_lt])
    simp [integralPoint?, Model.offset, Model.columnCount, hr, guard]
  unfold visit
  rw [he, hd]
  refine Model.yields_relax_offset.bind ?_
  refine .bind (Action.yields_ofOption hs) ?_
  refine .bind (Action.yields_ofOption hp) ?_
  refine .bind (Action.yields_ofOption (Model.offset_objectiveAt? 2)) ?_
  exact .bind (Action.yields_record _) Action.yields_pure

theorem faithful_offset (c : Context ℚ Unit Unit) :
    Faithful .offset .offset .capped ({ pending := [Model.offset.columnBounds] }, c) := by
  intro s d box pending r d' h hp hr
  rcases h.eq_or_pending_eq_nil rfl rfl yields_visit_offset rfl with hs | hs
  case inr => cases hs.symm.trans hp
  case inl =>
    cases hs
    cases hp
    have ⟨_, hy⟩ := Model.yields_relax_offset d.outside d.log
    cases hy.symm.trans hr
    exact Model.offset_feasible

theorem yields_search_offset :
    (Model.offset.search .offset .capped : Action ℚ Unit Unit _ _).Yields ()
      ⟨.optimal, some [2], 1⟩ () :=
  .bind yields_visit_offset Action.yields_pure

end Search

-- The incumbent does not lie on the row.
theorem Model.not_admitsPoint_search_offset : offset.hasDiscrete ∧
    (0 < Controls.capped.integrality ∧ Controls.capped.integrality < 1 / 2) ∧
    Search.Faithful .offset .offset .capped ({ pending := [offset.columnBounds] }, ⟨(), (), []⟩) ∧
    ∃ c', (offset.search .offset .capped).perform ⟨(), (), []⟩ =
      (.ok ⟨.optimal, some [2], 1⟩, c') ∧ ¬offset.AdmitsPoint [2] := by
  have ⟨_, hf⟩ := Search.yields_search_offset () []
  refine ⟨rfl, ?_, Search.faithful_offset _, _, hf, fun h => ?_⟩
  · norm_num [Controls.capped]
  · have := offset_admitsPoint_iff.mp h
    norm_num at this

-- The row is off by an eighth, and might be by a quarter.
theorem Model.search_rounded_offset : ∃ c', (offset.search .offset .capped).perform ⟨(), (), []⟩ =
    (.ok ⟨.optimal, some [2], 1⟩, c') ∧ offset.AdmitsUpTo Controls.capped.integrality [2] := by
  have ⟨_, hf⟩ := Search.yields_search_offset () []
  have ht : Controls.capped.integrality < 1 / 2 := by norm_num [Controls.capped]
  exact ⟨_, hf, ((search_rounded ht (Search.faithful_offset _) hf).2 [2] rfl).1⟩

end Offset
end ConicProgram
