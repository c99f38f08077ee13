import ConicProgram.Proofs.Optimizer.Search

namespace ConicProgram

variable {α σ ω : Type} [Scalar α] {m : Model α} {engine : Engine α ω} {controls : Controls α}

namespace Search

def Rated (m : Model α) (s : Search α) : Prop :=
  ∀ best, s.incumbent = some best → m.objectiveAt? best.point = some best.objective

variable {discrete : List Nat} {box : List (Bounds α)} {s s' : Search α} {c c' : Context α σ ω}

theorem Rated.settle {r : Relaxation α} (h : s.Rated m)
    (hs : (settle m controls discrete box r s).perform c = (.ok (.go s'), c')) : s'.Rated m := by
  have ⟨_, _, hv, hs⟩ := settle_cases hs
  cases hv
  cases hs
  case bounded => exact h
  case split => exact h
  case integral ho =>
    unfold offered
    split
    case isFalse => exact h
    case isTrue =>
      intro best hb
      cases hb
      exact ho

theorem Rated.visit (h : s.Rated m)
    (hv : (visit m engine controls discrete box s).perform c = (.ok (.go s'), c')) :
    s'.Rated m := by
  rcases visit_cases hv with ⟨_, hs⟩ | ⟨_, _, _, ⟨_, hs⟩ | ⟨_, hs⟩ | hs | hs | hs⟩ <;> try cases hs
  · exact h
  · exact h.settle hs
  · exact h
  · exact h

end Search

-- The point that is found has a value, and there is one if the search says so.
structure SearchResult.Rated (m : Model α) (found : SearchResult α) : Prop where
  value   : ∀ x, found.incumbent = some x → ∃ v, m.objectiveAt? x = some v
  present : found.status = .optimal → found.incumbent.isSome

theorem SearchResult.Rated.mapM_incumbent {found : SearchResult α} (h : found.Rated m) :
    found.incumbent.mapM (fun x =>
      (Action.ofOption (m.objectiveAt? x) : Action α σ ω (OptimizerError α) α)) =
        pure (found.incumbent.bind m.objectiveAt?) := by
  cases hi : found.incumbent
  case none => rfl
  case some x =>
    have ⟨v, hv⟩ := h.value x hi
    rw [Option.mapM_some, Option.bind_some, hv]
    rfl

theorem Search.Rated.result {s : Search α} (h : s.Rated m) : s.result.Rated m where
  value x hx := by
    have ⟨best, hb, hp⟩ := Option.map_eq_some_iff.mp hx
    exact ⟨_, hp ▸ h best hb⟩
  present hs := (Search.result_isSome_iff s).mpr (.inl hs)

theorem Search.Rated.explore {discrete : List Nat} {budget : Nat} {s : Search α}
    {found : SearchResult α} {c c' : Context α σ ω} (h : s.Rated m)
    (hf : (explore m engine controls discrete budget s).perform c = (.ok found, c')) :
    found.Rated m := by
  have hgo {s : Search α} {c : Context α σ ω} {box pending s' d} (h : s.Rated m)
      (_ : s.pending = box :: pending)
      (hv : (Search.visit m engine controls discrete box
        { s with pending, nodes := s.nodes + 1 }).perform c = (.ok (.go s'), d)) : s'.Rated m :=
    Search.Rated.visit (by exact h) hv
  rcases explore_cases hgo h hf with ⟨s', _, h, ⟨_, rfl⟩ | ⟨_, rfl⟩⟩ | ⟨status, nodes, hs, rfl⟩
  · exact h.result
  · exact Search.Rated.result (s := { s' with complete := false }) h
  · exact ⟨nofun, fun ho => by rcases hs with rfl | rfl <;> cases ho⟩

theorem Model.rated_of_search {found : SearchResult α} {c c' : Context α σ ω}
    (h : (m.search engine controls).perform c = (.ok found, c')) : found.Rated m := by
  refine Search.Rated.explore (fun best hb => ?_) h
  cases hb

-- What a solve has come to, in the words of the one way of solving or the other.
inductive Ending where
  | relaxed (outcome : Outcome)
  | searched (status : DiscreteStatus)

namespace Ending

def status : Ending → SolveStatus
  | relaxed .solved | searched .optimal => .optimal
  | relaxed .infeasible | searched .infeasible => .infeasible
  | relaxed .unbounded | searched .unbounded => .unbounded
  | relaxed _ | searched _ => .failed

def code : Ending → Int
  | relaxed outcome => outcome.status.code
  | searched status => status.code

def kind : Ending → ProblemKind
  | relaxed _ => .continuous
  | searched _ => .mixedInteger

-- In its own vocabulary the code of an ending is read as it should be.
theorem ofCode?_code (e : Ending) : SolveStatus.ofCode? e.kind e.code = some e.status := by
  cases e
  case relaxed outcome =>
    have hs : SolveStatus.ofContinuous outcome.status = (relaxed outcome).status := by
      cases outcome <;> rfl
    exact (SolveStatus.ofCode?_continuous outcome.status).trans (congrArg some hs)
  case searched status =>
    have hs : SolveStatus.ofDiscrete status = (searched status).status := by
      cases status <;> rfl
    exact (SolveStatus.ofCode?_mixedInteger status).trans (congrArg some hs)

theorem status_relaxed_eq_optimal_iff {outcome : Outcome} :
    (relaxed outcome).status = .optimal ↔ outcome = .solved := by
  cases outcome <;> simp [status]

theorem status_searched_eq_optimal_iff {s : DiscreteStatus} :
    (searched s).status = .optimal ↔ s = .optimal := by
  cases s <;> simp [status]

end Ending

-- How the continuous relaxation of a model ends, or else the search for an integral point.
def Model.ending (m : Model α) (engine : Engine α ω) (controls : Controls α) :
    (discrete : Bool) → Action α σ ω (OptimizerError α) Ending
  | false => return .relaxed (← m.relax engine controls m.columnBounds).outcome
  | true => return .searched (← m.search engine controls).status

theorem Model.kind_of_ending {discrete : Bool} {e : Ending} {c c' : Context α σ ω}
    (h : (m.ending engine controls discrete).perform c = (.ok e, c')) :
    e.kind = .ofMixedInteger discrete := by
  cases discrete <;>
  · have ⟨_, _, _, h⟩ := Action.perform_bind_eq_ok_iff.mp h
    cases h
    rfl

namespace ReferenceOptimizer

variable {s : ReferenceOptimizer α} {o : ω} {log : List (Event α)}

-- What is stored says how the solve has ended, and has the solution that there is then.
structure Solved.Reports (solved : Solved α) (e : Ending) : Prop where
  status : solved.status = e.code
  primal : e.status = .optimal → solved.primal.isSome
  duals  : e.status = .optimal → e.kind = .continuous → solved.duals.isSome

omit [Scalar α] in
-- What is kept of a relaxation, whatever its multipliers are read as.
theorem reports_relaxed (r : Relaxation α) (duals : List α) :
    Solved.Reports {
      status := r.outcome.status.code
      objective := if r.outcome = .solved then some r.objective else none
      primal := if r.outcome = .solved then some r.primal else none
      duals := if r.outcome = .solved then some duals else none } (.relaxed r.outcome) where
  status := rfl
  primal h := by simp [Ending.status_relaxed_eq_optimal_iff.mp h]
  duals h _ := by simp [Ending.status_relaxed_eq_optimal_iff.mp h]

theorem reports_searched {found : SearchResult α} (h : found.Rated m) (objective : Option α) :
    Solved.Reports ⟨found.status.code, objective, found.incumbent, none⟩
      (.searched found.status) where
  status := rfl
  primal hs := h.present (Ending.status_searched_eq_optimal_iff.mp hs)
  duals := nofun

theorem perform_solve (hm : s.model = some m) : (solve engine).perform ⟨s, o, log⟩ =
    ((if m.hasDiscrete then solveDiscrete else solveContinuous) engine m s.controls >>=
      fun result => Action.modifyState fun s => { s with result := some result }).perform
        ⟨s.forget, o, log⟩ := by
  rw [solve, Action.perform_bind_of_ok (Action.perform_modifyState _),
    Action.perform_bind_of_ok Action.perform_state]
  have hf : s.forget.model = some m := hm
  dsimp only
  rw [hf]
  rfl

theorem perform_solve_of_none (hm : s.model = none) : (solve engine).perform ⟨s, o, log⟩ =
    (.error (.refused .notLoaded), ⟨s.forget, o, log⟩) := by
  rw [solve, Action.perform_bind_of_ok (Action.perform_modifyState _),
    Action.perform_bind_of_ok Action.perform_state]
  have hf : s.forget.model = none := hm
  dsimp only
  rw [hf]
  rfl

theorem perform_solve_of_error {e d} (hm : s.model = some m)
    (h : (m.ending engine s.controls m.hasDiscrete).perform ⟨s.forget, o, log⟩ = (.error e, d)) :
    (solve engine).perform ⟨s, o, log⟩ = (.error e, d) := by
  rw [perform_solve hm]
  refine Action.perform_bind_of_error ?_
  cases hd : m.hasDiscrete <;> rw [hd, Model.ending, Action.perform_bind] at h
  case false =>
    cases hr : (m.relax engine s.controls m.columnBounds : Call α ω _).perform ⟨s.forget, o, log⟩
    case mk r d' =>
    rw [hr] at h
    cases r <;> cases h
    exact Action.perform_bind_of_error hr
  case true =>
    cases hr : (m.search engine s.controls : Call α ω _).perform ⟨s.forget, o, log⟩
    case mk r d' =>
    rw [hr] at h
    cases r <;> cases h
    exact Action.perform_bind_of_error hr

theorem perform_solve_of_ending {e d} (hm : s.model = some m)
    (h : (m.ending engine s.controls m.hasDiscrete).perform ⟨s.forget, o, log⟩ = (.ok e, d)) :
    ∃ solved d', (solve engine).perform ⟨s, o, log⟩ = (.ok (), d') ∧
      d'.state.result = some solved ∧ Solved.Reports solved e := by
  rw [perform_solve hm]
  cases hd : m.hasDiscrete <;> rw [hd, Model.ending, Action.perform_bind_eq_ok_iff] at h
  case false =>
    have ⟨r, d', hr, h⟩ := h
    cases h
    exact ⟨_, _, Action.perform_bind_of_ok (Action.perform_bind_of_ok hr), rfl,
      reports_relaxed r (m.rowDuals r.dual)⟩
  case true =>
    have ⟨found, d', hf, h⟩ := h
    cases h
    have hrated := Model.rated_of_search hf
    have hs : (solveDiscrete engine m s.controls).perform ⟨s.forget, o, log⟩ =
        (.ok ⟨found.status.code, found.incumbent.bind m.objectiveAt?, found.incumbent, none⟩,
          { d with log := d.log ++ [.searched found.nodes found.status.code] }) := by
      rw [solveDiscrete, Action.perform_bind_of_ok hf,
        Action.perform_bind_of_ok (Action.perform_record _), hrated.mapM_incumbent]
      rfl
    exact ⟨_, _, Action.perform_bind_of_ok hs, rfl, reports_searched hrated _⟩

end ReferenceOptimizer
end ConicProgram
