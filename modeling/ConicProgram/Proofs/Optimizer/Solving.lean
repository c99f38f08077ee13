import ConicProgram.Optimizer.Reference
import ConicProgram.Proofs.Action

namespace ConicProgram

section Search

variable {α σ ω : Type} [Scalar α] {m : Model α} {engine : Engine α ω} {controls : Controls α}
  {P : ∀ {β : Type}, Action α σ ω (OptimizerError α) β → Prop}

theorem Model.relax_of (h : Action.Hereditary P) {bounds : List (Bounds α)}
    (hask : ∀ call : EngineCall α, call.settings = controls.engineSettings →
      P (Action.ask (engine call))) : P (m.relax engine controls bounds) := by
  refine h.bind (h.ofAttempt _) fun system => ?_
  split
  case isTrue => exact h.pure _
  case isFalse =>
    refine h.bind (hask _ rfl) fun reply => ?_
    cases reply
    case error => exact h.ofAttempt _
    case ok => exact h.pure _

namespace Search

variable {discrete : List Nat} {box : List (Bounds α)} {s : Search α}

theorem settle_of (h : Action.Hereditary P) {r : Relaxation α} :
    P (settle m controls discrete box r s) := by
  unfold settle
  split
  case isTrue => exact h.pure _
  case isFalse =>
    refine h.bind (h.ofAttempt _) fun branch => ?_
    cases branch
    case some =>
      refine h.bind (h.record _) fun _ => ?_
      exact h.bind (h.ofAttempt _) fun _ => h.pure _
    case none =>
      refine h.bind (h.ofAttempt _) fun point => h.bind (h.ofAttempt _) fun objective => ?_
      split
      case isTrue => exact h.bind (h.record _) fun _ => h.pure _
      case isFalse => exact h.pure _

variable (h : Action.Hereditary P) (hask : ∀ call : EngineCall α,
  call.settings = controls.engineSettings → P (Action.ask (engine call)))
include h hask

theorem visit_of : P (visit m engine controls discrete box s) := by
  unfold visit
  split
  case isTrue => exact h.pure _
  case isFalse =>
    refine h.bind (Model.relax_of h hask) fun r => ?_
    split
    case h_1 => exact settle_of h
    case h_2 => exact h.pure _
    case h_3 => split <;> exact h.pure _

-- The induction is on the budget, node by node.
theorem explore_of {budget : Nat} : P (explore m engine controls discrete budget s) := by
  induction budget generalizing s
  case zero => unfold explore; split <;> exact h.pure _
  case succ budget hi =>
    unfold explore
    split
    case h_1 => exact h.pure _
    case h_2 =>
      refine h.bind (visit_of h hask) fun v => ?_
      cases v
      case stop => exact h.pure _
      case go s' => exact hi

end Search

-- A search is put together from relaxations, and a relaxation has no more than one call in it.
theorem Model.search_of (h : Action.Hereditary P) (hask : ∀ call : EngineCall α,
    call.settings = controls.engineSettings → P (Action.ask (engine call))) :
    P (m.search engine controls) :=
  Search.explore_of h hask

namespace ReferenceOptimizer

variable {P : ∀ {β : Type}, Call α ω β → Prop}

theorem solver_of (h : Action.Hereditary P) (hask : ∀ call : EngineCall α,
    call.settings = controls.engineSettings → P (Action.ask (engine call))) {discrete : Bool} :
    P ((if discrete then solveDiscrete else solveContinuous) engine m controls) := by
  cases discrete
  case false => exact h.bind (m.relax_of h hask) fun _ => h.pure _
  case true =>
    refine h.bind (m.search_of h hask) fun found => h.bind (h.record _) fun _ => ?_
    refine h.bind ?_ fun _ => h.pure _
    cases found.incumbent
    case none => exact h.pure _
    case some => exact h.bind (h.ofAttempt _) fun _ => h.pure _

end ReferenceOptimizer
end Search

namespace ReferenceOptimizer

variable {α ω τ : Type} {f : ReferenceOptimizer α → τ}

theorem perform_reading {β : Type} (part : Solved α → Option β)
    (c : Context α (ReferenceOptimizer α) ω) :
    (reading part).perform c = (match c.state.result.bind part with
      | some b => .ok b
      | none => .error (.refused (.noSolution c.state.status)), c) := by
  rw [reading, Action.perform_bind_of_ok Action.perform_state]
  cases c.state.result.bind part <;> rfl

theorem keeps_reading {β : Type} (part : Solved α → Option β) :
    (reading part : Call α ω β).Keeps f := by
  intro c
  rw [perform_reading]

variable [Scalar α]

theorem keeps_solver (engine : Engine α ω) (m : Model α) (controls : Controls α)
    (discrete : Bool) :
    ((if discrete then solveDiscrete else solveContinuous) engine m controls).Keeps f :=
  solver_of (Action.hereditary_keeps f) fun _ _ => Action.keeps_ask _

theorem keeps_solve (hf : ∀ s result, f { s with result } = f s) (engine : Engine α ω) :
    (solve engine).Keeps f := by
  refine (Action.keeps_modifyState fun s => hf s none).bind fun _ => ?_
  refine Action.keeps_state.bind fun s => ?_
  split
  case h_1 => exact Action.keeps_ofAttempt _
  case h_2 m _ =>
    refine (keeps_solver engine m s.controls m.hasDiscrete).bind fun _ => ?_
    exact Action.keeps_modifyState fun s => hf s _

end ReferenceOptimizer

section Reply

-- An engine that gives the same reply to each call.
variable {α σ ω : Type} [Scalar α] {engine : Engine α ω} {reply : EngineReply α} {m : Model α}
  {a : Assembled α} (he : ∀ call, engine call = pure (.ok reply))
include he

theorem Model.yields_relax {bounds : List (Bounds α)} (ha : m.assemble? bounds = some a)
    (hc : m.columnCount ≠ 0) (controls : Controls α) (s : σ) :
    (m.relax engine controls bounds : Action α σ ω _ _).Yields s
      { outcome := .ofEngine reply.status
        primal := reply.primal
        dual := reply.dual
        objective := reply.objective } s := by
  refine .bind (Action.yields_ofOption ha) ?_
  rw [if_neg fun h => hc h.1]
  exact .bind (Action.yields_ask (he _)) Action.yields_pure

theorem ReferenceOptimizer.yields_solve {s : ReferenceOptimizer α} (hm : s.model = some m)
    (hd : m.hasDiscrete = false) (ha : m.assemble? m.columnBounds = some a)
    (hc : m.columnCount ≠ 0) :
    (solve engine).Yields s () { s with result := some {
      status := (Outcome.ofEngine reply.status).status.code
      objective := if Outcome.ofEngine reply.status = .solved then some reply.objective else none
      primal := if Outcome.ofEngine reply.status = .solved then some reply.primal else none
      duals := if Outcome.ofEngine reply.status = .solved then some (m.rowDuals reply.dual)
        else none } } := by
  refine .bind (Action.yields_modifyState _) (.bind Action.yields_state ?_)
  have hf : s.forget.model = some m := hm
  have hr := m.yields_relax he ha hc s.controls s.forget
  simp only [hf, hd]
  exact .bind (.bind hr Action.yields_pure) (Action.yields_modifyState _)

end Reply
end ConicProgram
