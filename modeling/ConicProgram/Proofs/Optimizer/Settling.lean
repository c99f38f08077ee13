import ConicProgram.Proofs.Optimizer.Splitting
import ConicProgram.Proofs.Action
import ConicProgram.Proofs.Model.Scope

namespace ConicProgram

variable {α σ ω : Type}

namespace Search

-- What becomes of a node.
inductive Fate (α : Type) where
  | empty
  | infeasible
  | bounded
  | split (b : Branch α)
  | integral (objective : α)
  | unresolved (outcome : Outcome)
  | refused (text : String)

namespace Fate

-- The node leaves nothing to be done, apart from the boxes that it may be split into.
def IsClosed : Fate α → Prop
  | unresolved _ | refused _ => False
  | _ => True

-- What has been heard of the node.
def answers : Fate α → List (Except String Outcome)
  | empty => []
  | infeasible => [.ok .infeasible]
  | bounded | split _ | integral _ => [.ok .solved]
  | unresolved outcome => [.ok outcome]
  | refused text => [.error text]

variable {fate : Fate α}

theorem error_mem_answers_iff {text : String} :
    .error text ∈ fate.answers ↔ fate = .refused text := by
  cases fate <;> simp [answers, eq_comm]

-- No node is asked about twice.
theorem length_flatMap_answers_le (fates : List (Fate α)) :
    (fates.flatMap answers).length ≤ fates.length := by
  induction fates
  case nil => exact le_rfl
  case cons fate fates hi =>
    have h : fate.answers.length ≤ 1 := by cases fate <;> simp [answers]
    rw [List.flatMap_cons, List.length_append, List.length_cons]
    omega

end Fate
end Search

variable [Scalar α] {m : Model α} {controls : Controls α} {discrete : List Nat}
  {box : List (Bounds α)} {r : Relaxation α} {s s' : Search α} {c c' : Context α σ ω}

omit [Scalar α] in
theorem Model.lt_of_mem_discreteColumns {j : Nat} (h : j ∈ m.discreteColumns) :
    j < m.columnCount := by
  have ⟨(c, k), hk, h⟩ := List.mem_filterMap.mp h
  have hk := List.snd_lt_of_mem_zipIdx hk
  simp only [Option.ite_none_right_eq_some, Option.some.injEq] at h
  rw [← h.2, columnCount]
  simpa using hk

namespace Search

-- The search with a candidate taken for the incumbent if it is better.
def offered (s : Search α) (candidate : Incumbent α) : Search α :=
  if s.improves candidate.objective then { s with incumbent := some candidate } else s

theorem pending_offered (i : Incumbent α) : (s.offered i).pending = s.pending := by
  unfold offered
  split <;> rfl

theorem nodes_offered (i : Incumbent α) : (s.offered i).nodes = s.nodes := by
  unfold offered
  split <;> rfl

-- What becomes of a node whose relaxation is solved, and of the search.
inductive Settles (m : Model α) (controls : Controls α) (discrete : List Nat)
    (box : List (Bounds α)) (s : Search α) (r : Relaxation α) : Fate α → Search α → Prop
  | bounded (bounded : s.isBounded controls.gapAbsolute r.objective) :
    Settles m controls discrete box s r .bounded s
  | split {b} (better : ¬s.isBounded controls.gapAbsolute r.objective)
      (selected : Branch.select? r.primal discrete controls.integrality = some (some b)) :
    Settles m controls discrete box s r (.split b) { s with pending := b.children box ++ s.pending }
  | integral {point objective} (better : ¬s.isBounded controls.gapAbsolute r.objective)
      (selected : Branch.select? r.primal discrete controls.integrality = some none)
      (rounded : integralPoint? m discrete r.primal = some point)
      (value : m.objectiveAt? point = some objective) :
    Settles m controls discrete box s r (.integral objective) (s.offered ⟨objective, point⟩)

theorem settle_cases {v : Visit α}
    (h : (settle m controls discrete box r s).perform c = (.ok v, c')) :
    ∃ fate s', v = .go s' ∧ Settles m controls discrete box s r fate s' := by
  unfold settle at h
  split at h
  case isTrue hb =>
    cases h
    exact ⟨_, _, rfl, .bounded hb⟩
  case isFalse hb =>
    have ⟨found, d, hf, h⟩ := Action.perform_bind_eq_ok_iff.mp h
    simp only [Action.perform_ofOption, Prod.mk.injEq, Attempt.ofOption_eq_ok_iff] at hf
    cases found
    case some b =>
      have ⟨_, d', hr, h⟩ := Action.perform_bind_eq_ok_iff.mp h
      have ⟨children, d'', hc, h⟩ := Action.perform_bind_eq_ok_iff.mp h
      simp only [Action.perform_ofOption, Prod.mk.injEq, Attempt.ofOption_eq_ok_iff] at hc
      have ⟨_, _, hc⟩ := Option.bind_eq_some_iff.mp hc.1
      cases hc
      cases h
      exact ⟨_, _, rfl, .split hb hf.1⟩
    case none =>
      have ⟨point, d', hp, h⟩ := Action.perform_bind_eq_ok_iff.mp h
      have ⟨objective, d'', ho, h⟩ := Action.perform_bind_eq_ok_iff.mp h
      simp only [Action.perform_ofOption, Prod.mk.injEq, Attempt.ofOption_eq_ok_iff] at hp ho
      refine ⟨.integral objective, s.offered ⟨objective, point⟩, ?_, .integral hb hf.1 hp.1 ho.1⟩
      split at h
      case isTrue hi =>
        cases h
        exact congrArg Visit.go (if_pos hi).symm
      case isFalse hi =>
        cases h
        exact congrArg Visit.go (if_neg hi).symm

theorem exists_integralPoint? {x : List α} (hd : ∀ j ∈ discrete, j < m.columnCount)
    (hx : x.length = m.columnCount) :
    ∃ point, integralPoint? m discrete x = some point ∧ point.length = m.columnCount := by
  refine ⟨_, by rw [integralPoint?, guard, if_pos ⟨hx.ge, hd⟩]; rfl, ?_⟩
  rw [Lists.length_foldl_modify, List.length_take, hx, Nat.min_self]

theorem exists_objectiveAt? {x : List α} (h : m.Closed) (hx : x.length = m.columnCount) :
    ∃ v, m.objectiveAt? x = some v := by
  have hl : m.objective.length = (x.take m.columnCount).length := by
    rw [h.objective, List.length_take, hx, Nat.min_self]
  exact ⟨_, by rw [Model.objectiveAt?, guard, if_pos hx.ge, Vector.dot?, if_pos hl]; rfl⟩

-- Each box that is left has bounds for each column.
def Boxed (m : Model α) (s : Search α) : Prop :=
  ∀ box ∈ s.pending, box.length = m.columnCount

omit [Scalar α] in
theorem Boxed.next {pending : List (List (Bounds α))} (h : s.Boxed m)
    (hp : s.pending = box :: pending) (nodes : Nat) :
    box.length = m.columnCount ∧ Boxed m { s with pending, nodes } := by
  rw [Boxed, hp] at h
  exact List.forall_mem_cons.mp h

theorem boxed_start (m : Model α) : Boxed m { pending := [m.columnBounds] } := by
  intro box hb
  rw [List.mem_singleton.mp hb, Model.columnBounds, List.length_map, Model.columnCount]

def Visit.Boxed (m : Model α) : Visit α → Prop
  | .stop _ => True
  | .go s => s.Boxed m

-- There is always a next stage, and the engine is not asked for it.
theorem exists_settles (hm : m.Closed) (hd : ∀ j ∈ discrete, j < m.columnCount)
    (hb : box.length = m.columnCount) (hr : r.primal.length = m.columnCount)
    (controls : Controls α) (s : Search α) (c : Context α σ ω) :
    ∃ fate s' log, Settles m controls discrete box s r fate s' ∧
      (settle m controls discrete box r s).perform c = (.ok (.go s'), { c with log }) := by
  suffices h : ∃ fate s', Settles m controls discrete box s r fate s' ∧
      (settle m controls discrete box r s : Action α σ ω _ _).Yields c.state (.go s') c.state by
    have ⟨fate, s', hs, hy⟩ := h
    have ⟨log, hy⟩ := hy c.outside c.log
    exact ⟨fate, s', log, hs, hy⟩
  unfold settle
  split
  case isTrue hg => exact ⟨_, _, .bounded hg, Action.yields_pure⟩
  case isFalse hg =>
    have hx j (hj : j ∈ discrete) : j < r.primal.length := (hd j hj).trans_eq hr.symm
    have ⟨found, hf⟩ := Branch.exists_select? hx controls.integrality
    cases found
    case some b =>
      have hc := Branch.children?_eq ((hd _ (Branch.select?_some hf).1).trans_eq hb.symm)
      refine ⟨_, _, .split hg hf, .bind (Action.yields_ofOption hf) ?_⟩
      refine .bind (Action.yields_record _) ?_
      exact .bind (Action.yields_ofOption hc) Action.yields_pure
    case none =>
      have ⟨point, hp, hl⟩ := exists_integralPoint? hd hr
      have ⟨v, hv⟩ := exists_objectiveAt? hm hl
      refine ⟨_, _, .integral hg hf hp hv, .bind (Action.yields_ofOption hf) ?_⟩
      refine .bind (Action.yields_ofOption hp) (.bind (Action.yields_ofOption hv) ?_)
      unfold offered
      split
      case isTrue => exact .bind (Action.yields_record _) Action.yields_pure
      case isFalse => exact Action.yields_pure

theorem Settles.boxed (h : Settles m controls discrete box s r fate s')
    (hb : box.length = m.columnCount) (hs : s.Boxed m) : s'.Boxed m := by
  cases h
  case bounded => exact hs
  case split =>
    intro c hc
    rcases List.mem_append.mp hc with hc | hc
    · exact (Branch.length_of_mem_children hc).trans hb
    · exact hs c hc
  case integral =>
    rw [Boxed, pending_offered]
    exact hs

theorem Settles.nodes_eq (h : Settles m controls discrete box s r fate s') :
    s'.nodes = s.nodes := by
  cases h
  case bounded => rfl
  case split => rfl
  case integral => exact nodes_offered _

end Search
end ConicProgram
