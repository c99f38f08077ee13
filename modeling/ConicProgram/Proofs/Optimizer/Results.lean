import ConicProgram.Proofs.Optimizer.Ending
import ConicProgram.Proofs.Optimizer.Solving

namespace ConicProgram

variable {α σ ω : Type} [Scalar α] {m : Model α} {engine : Engine α ω} {controls : Controls α}
  {c : Context α σ ω}

-- The call that is made for an assembled model.
def Assembled.call (a : Assembled α) (m : Model α) (controls : Controls α) : EngineCall α where
  objective := m.objective
  matrix := a.matrix
  rhs := a.rhs
  cones := a.cones
  settings := controls.engineSettings

-- What the relaxation over an assembled system comes to, and what lies outside then: there is
-- nothing to solve, or it is the answer of the engine.
inductive Model.Relaxes (m : Model α) (engine : Engine α ω) (controls : Controls α)
    (a : Assembled α) (o : ω) : Relaxation α → ω → Prop
  | empty (columns : m.columnCount = 0) (rows : a.rhs = []) :
      Relaxes m engine controls a o ⟨.solved, [], [], 0⟩ o
  | answered {reply o'} (asked : ¬(m.columnCount = 0 ∧ a.rhs = []))
      (answer : (engine (a.call m controls)).run o = (.ok reply, o')) :
      Relaxes m engine controls a o
        ⟨.ofEngine reply.status, reply.primal, reply.dual, reply.objective⟩ o'

theorem Model.relaxes_of_perform {bounds : List (Bounds α)} {r d}
    (h : (m.relax engine controls bounds).perform c = (.ok r, d)) :
    ∃ a, m.assemble? bounds = some a ∧ m.Relaxes engine controls a c.outside r d.outside := by
  have ⟨a, c', ha, h⟩ := Action.perform_bind_eq_ok_iff.mp h
  rw [Action.perform_ofOption, Prod.mk.injEq, Attempt.ofOption_eq_ok_iff] at ha
  obtain ⟨ha, rfl⟩ := ha
  refine ⟨a, ha, ?_⟩
  split at h
  case isTrue he =>
    cases h
    exact .empty he.1 (List.isEmpty_iff.mp he.2)
  case isFalse he =>
    have ⟨answer, c', hr, h⟩ := Action.perform_bind_eq_ok_iff.mp h
    cases answer
    case error => cases h
    case ok reply =>
      cases h
      rw [Action.perform_ask, Prod.mk.injEq] at hr
      have ⟨hr, hc⟩ := hr
      refine .answered (by rwa [← List.isEmpty_iff]) (Prod.ext (Except.ok.inj hr) ?_)
      rw [← hc]
      rfl

-- What comes of solving the model from `c` on: the numbers of its relaxation if it has no discrete
-- columns, or else the incumbent of the search with its value.
inductive Model.SolvesTo (m : Model α) (engine : Engine α ω) (controls : Controls α)
    (c : Context α σ ω) : Solved α → Prop
  | relaxation {r d} (continuous : m.hasDiscrete = false)
      (relaxed : (m.relax engine controls m.columnBounds).perform c = (.ok r, d)) :
      SolvesTo m engine controls c {
        status := r.outcome.status.code
        objective := if r.outcome = .solved then some r.objective else none
        primal := if r.outcome = .solved then some r.primal else none
        duals := if r.outcome = .solved then some (m.rowDuals r.dual) else none }
  | search {found d} (discrete : m.hasDiscrete)
      (searched : (m.search engine controls).perform c = (.ok found, d)) :
      SolvesTo m engine controls c {
        status := found.status.code
        objective := found.incumbent.bind m.objectiveAt?
        primal := found.incumbent
        duals := none }

theorem Model.SolvesTo.unique {s s' : Solved α} (h : m.SolvesTo engine controls c s)
    (h' : m.SolvesTo engine controls c s') : s = s' := by
  cases h
  case relaxation hd hr =>
    cases h'
    case relaxation hr' => cases hr.symm.trans hr'; rfl
    case search hd' _ => rw [hd] at hd'; cases hd'
  case search hd hf =>
    cases h'
    case relaxation hd' _ => rw [hd] at hd'; cases hd'
    case search hf' => cases hf.symm.trans hf'; rfl

namespace ReferenceOptimizer

variable {s : ReferenceOptimizer α} {o : ω} {log : List (Event α)}

theorem solvesTo_of_solver {c d : Context α (ReferenceOptimizer α) ω} {solved : Solved α}
    (h : ((if m.hasDiscrete then solveDiscrete else solveContinuous) engine m controls).perform c =
      (.ok solved, d)) : m.SolvesTo engine controls c solved := by
  cases hd : m.hasDiscrete <;> rw [hd] at h
  case false =>
    have ⟨r, _, hr, h⟩ := Action.perform_bind_eq_ok_iff.mp h
    cases h
    exact .relaxation hd hr
  case true =>
    have ⟨found, _, hf, h⟩ := Action.perform_bind_eq_ok_iff.mp h
    rw [Action.perform_bind_of_ok (Action.perform_record _),
      (Model.rated_of_search hf).mapM_incumbent] at h
    cases h
    exact .search hd hf

-- How a solve of the loaded model can end.
inductive Solves (engine : Engine α ω) (s : ReferenceOptimizer α) (m : Model α) (o : ω)
    (log : List (Event α)) : Attempt (OptimizerError α) Unit → ReferenceOptimizer α → Prop
  | failed (e) : Solves engine s m o log (.error e) s.forget
  | delivered {solved} (h : m.SolvesTo engine s.controls ⟨s.forget, o, log⟩ solved) :
      Solves engine s m o log (.ok ()) { s with result := some solved }

theorem solves_of_perform {r d} (hm : s.model = some m)
    (h : (solve engine).perform ⟨s, o, log⟩ = (r, d)) : Solves engine s m o log r d.state := by
  rw [perform_solve hm, Action.perform_bind] at h
  have hk := keeps_solver (f := id) engine m s.controls m.hasDiscrete ⟨s.forget, o, log⟩
  cases hs : ((if m.hasDiscrete then solveDiscrete else solveContinuous) engine m s.controls).perform
    ⟨s.forget, o, log⟩
  case mk t d' =>
  rw [hs] at h hk
  have hd : d'.state = s.forget := hk
  cases t <;> cases h
  case error e => exact hd ▸ .failed e
  case ok solved =>
    dsimp only
    rw [hd]
    exact .delivered (solvesTo_of_solver hs)

-- What a solve asks is what the relaxation asks that it consists of.
theorem outside_solve_of_continuous (hm : s.model = some m) (hd : m.hasDiscrete = false) :
    ((solve engine).perform ⟨s, o, log⟩).2.outside =
      ((m.relax engine s.controls m.columnBounds : Call α ω _).perform
        ⟨s.forget, o, log⟩).2.outside := by
  rw [perform_solve hm, hd]
  refine (Action.outside_bind_of_silent fun _ => Action.silent_modifyState _).trans ?_
  exact Action.outside_bind_of_silent fun _ => Action.hereditary_silent.pure _

-- Or else what the search asks.
theorem outside_solve_of_discrete (hm : s.model = some m) (hd : m.hasDiscrete) :
    ((solve engine).perform ⟨s, o, log⟩).2.outside =
      ((m.search engine s.controls : Call α ω _).perform ⟨s.forget, o, log⟩).2.outside := by
  rw [perform_solve hm, hd]
  refine (Action.outside_bind_of_silent fun _ => Action.silent_modifyState _).trans ?_
  refine Action.outside_bind_of_silent fun found => ?_
  refine Action.hereditary_silent.bind (Action.hereditary_silent.record _) fun _ => ?_
  refine Action.hereditary_silent.bind ?_ fun _ => Action.hereditary_silent.pure _
  cases found.incumbent
  case none => exact Action.hereditary_silent.pure _
  case some => exact Action.hereditary_silent.bind (Action.silent_ofAttempt _) fun _ => fun _ => rfl

end ReferenceOptimizer
end ConicProgram
