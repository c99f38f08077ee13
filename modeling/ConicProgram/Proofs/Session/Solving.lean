import ConicProgram.Proofs.Optimizer.Solving
import ConicProgram.Proofs.Session.Options
import ConicProgram.Proofs.Warm.Held

namespace ConicProgram

variable {α ω β : Type}

namespace Instance

variable {s s' : Instance (ReferenceOptimizer α)}

-- The instance with nothing of its optimizer but the model.
def content (s : Instance (ReferenceOptimizer α)) : Instance (Option (Model α)) :=
  { s with optimizer := s.optimizer.model }

theorem keeps_call {a : ReferenceOptimizer.Call α ω β} (h : a.Keeps (·.model)) :
    (call a).Keeps content := by
  have ha : (a.mapCause .rejected : Action α _ ω (SolveError α) β).Keeps fun o => o.model := h
  exact ha.within fun o s ho => congrArg (fun m => { s with optimizer := m }) ho

theorem model_eq_of_content (h : s'.content = s.content) : s'.optimizer.model = s.optimizer.model :=
  congrArg Instance.optimizer h

-- What an instance is besides its optimizer is its content.
theorem layout_of_content {t : Instance (ReferenceOptimizer α)} (hc : s'.content = s.content)
    (hl : s = { t with optimizer := s.optimizer }) : s' = { t with optimizer := s'.optimizer } := by
  cases s
  cases s'
  simp only [content, Instance.mk.injEq] at hc hl ⊢
  simp_all

variable [Scalar α] {p : Problem α} {mode : ConeMode}

theorem Holds.of_content (h : s.Holds p mode) (hc : s'.content = s.content) : s'.Holds p mode :=
  ⟨layout_of_content hc h.layout, by rw [model_eq_of_content hc]; exact h.model⟩

theorem Frames.of_content (h : s.Frames p mode) (hc : s'.content = s.content) :
    s'.Frames p mode :=
  ⟨layout_of_content hc h.layout, by rw [model_eq_of_content hc]; exact h.model⟩

end Instance

section Run

variable [Scalar α]
  {P : ∀ {β : Type}, Action α (Instance (ReferenceOptimizer α)) ω (SolveError α) β → Prop}
  (h : Action.Hereditary P) (hstate : P Action.state)
  (hread : ∀ part : Solved α → Option (List α),
    P (Instance.call (ReferenceOptimizer.reading part)))
  (engine : Engine α ω)
include h hstate hread

-- To read a result takes no more than to read the state of the optimizer.
theorem Instance.extract_of (status : SolveStatus) (kind : ProblemKind) :
    P (extract (ReferenceOptimizer.operations engine) status kind) := by
  unfold extract
  split
  case isTrue => exact h.pure _
  case isFalse =>
    refine h.bind hstate fun s => h.bind (hread _) fun x => ?_
    cases kind
    case continuous =>
      refine h.bind (hread _) fun y => h.bind (h.pure _) fun _ => ?_
      exact h.bind hstate fun s => h.pure _
    case mixedInteger => exact h.bind (h.pure _) fun _ => h.bind hstate fun s => h.pure _

-- And a run takes no more than that besides its two calls.
theorem Session.run_of {settings : Settings} {options : SolveOptions α}
    (hset : P (Instance.call
      (applyOptions (ReferenceOptimizer.operations engine) settings options)))
    (hsolve : P (Instance.call (ReferenceOptimizer.solve engine))) (kind : ProblemKind) :
    P (run (ReferenceOptimizer.operations engine) settings kind options) := by
  refine h.bind hset fun _ => h.bind hsolve fun _ => h.bind hstate fun s => ?_
  dsimp only
  split
  case h_1 => exact h.ofAttempt _
  case h_2 status _ =>
    exact h.bind (h.record _) fun _ => Instance.extract_of h hstate hread engine status kind

end Run

namespace Session

variable [Scalar α] (engine : Engine α ω) (settings : Settings) (options : SolveOptions α)

theorem keeps_run (kind : ProblemKind) :
    (run (ReferenceOptimizer.operations engine) settings kind options).Keeps Instance.content :=
  run_of (Action.hereditary_keeps _) Action.keeps_state
    (fun _ => Instance.keeps_call (ReferenceOptimizer.keeps_reading _)) engine
    (Instance.keeps_call (keeps_applyOptions (fun _ _ => rfl) engine settings options))
    (Instance.keeps_call (ReferenceOptimizer.keeps_solve (fun _ _ => rfl) engine)) kind

section Reply

variable {engine : Engine α ω} {reply : EngineReply α} {m : Model α} {a : Assembled α}

theorem yields_applyOptions (s : ReferenceOptimizer α) :
    (applyOptions (ReferenceOptimizer.operations engine) settings {}).Yields s ()
      { s with controls := { s.initial with verbose := settings.verbose } } :=
  fun _ log => ⟨log, rfl⟩

-- A run that the engine ends with the reply that there is no solution.
theorem yields_run {s : Instance (ReferenceOptimizer α)}
    (he : ∀ call, engine call = pure (.ok reply)) (hs : reply.status = .primalInfeasible)
    (hm : s.optimizer.model = some m) (hd : m.hasDiscrete = false)
    (ha : m.assemble? m.columnBounds = some a) (hc : m.columnCount ≠ 0) :
    ∃ s', (run (ReferenceOptimizer.operations engine) settings .continuous {}).Yields s
      (.withoutSolution .infeasible) s' := by
  have ho := Instance.yields_call <|
    show (applyOptions (ReferenceOptimizer.operations engine) settings {}).Yields _ _ _ from
      yields_applyOptions settings s.optimizer
  have hsolve := ReferenceOptimizer.yields_solve (s := { s.optimizer with
    controls := { s.optimizer.initial with verbose := settings.verbose } }) he hm hd ha hc
  rw [hs] at hsolve
  have hr := Instance.yields_call (s := { s with optimizer := { s.optimizer with
    controls := { s.optimizer.initial with verbose := settings.verbose } } }) hsolve
  exact ⟨_, .bind ho (.bind hr (.bind Action.yields_state
    (.bind (Action.yields_record _) Action.yields_pure)))⟩

end Reply

section Branches

variable {σ : Type} {opt : Optimizer α σ ω} {p : Problem α} {warm : Bool} {options}
  {c : Context α (Session α σ) ω}

omit [Scalar α] in
theorem perform_of_invalid {cause : ProblemError}
    {k : Action α (Session α σ) ω (SolveError α) β} (hv : p.validate = .error cause) :
    Action.perform (do
        Action.ofAttempt (Attempt.mapCause .invalidProblem (.ofExcept p.validate))
        k) c =
      (.error (.refused (.invalidProblem cause)), c) := by
  rw [hv]
  exact Action.perform_bind_of_error (Action.perform_ofAttempt _)

omit [Scalar α] in
-- What is done for a valid problem goes by the session that the problem is given to.
theorem perform_of_validated {k : Session α σ → Action α (Session α σ) ω (SolveError α) β}
    (hv : p.validate = .ok ()) :
    Action.perform (do
        Action.ofAttempt (Attempt.mapCause .invalidProblem (.ofExcept p.validate))
        k (← Action.state)) c =
      (k c.state).perform c := by
  rw [hv]
  refine (Action.perform_bind_of_ok (Action.perform_ofAttempt _)).trans ?_
  exact Action.perform_bind_of_ok Action.perform_state

omit [Scalar α] in
theorem ensures_of_validate {s : Session α σ} {R : Attempt (SolveError α) β → Session α σ → Prop}
    {k : Session α σ → Action α (Session α σ) ω (SolveError α) β}
    (herror : ∀ cause, R (.error (.refused (.invalidProblem cause))) s)
    (hok : p.validate = .ok () → (k s).Ensures s R) :
    Action.Ensures (do
        Action.ofAttempt (Attempt.mapCause .invalidProblem (.ofExcept p.validate))
        k (← Action.state)) s R := by
  intro outside log
  cases hv : p.validate
  case error cause =>
    rw [← hv, perform_of_invalid hv]
    exact herror cause
  case ok =>
    rw [← hv, perform_of_validated hv]
    exact hok hv outside log

theorem perform_solve_of_invalid {cause : ProblemError} (hv : p.validate = .error cause)
    (c : Context α (Session α σ) ω) :
    (solve opt p warm options).perform c = (.error (.refused (.invalidProblem cause)), c) :=
  perform_of_invalid hv

variable (hv : p.validate = .ok ())
include hv

theorem perform_solve_of_warm {snapshot : Snapshot α σ} {plan : Plan α}
    (hw : c.state.warmPlan opt p warm = .ok (snapshot, plan)) :
    (solve opt p warm options).perform c = (solveWarm opt (c.state.name opt) snapshot p plan
      (.ofMixedInteger p.isMixedInteger) options).perform c := by
  refine (perform_of_validated hv).trans ?_
  rw [hw]

theorem perform_solve_of_cold {reason : Ineligible}
    (hw : c.state.warmPlan opt p warm = .error (.refused reason)) :
    (solve opt p warm options).perform c =
      (solveCold opt (c.state.name opt) p (.ofMixedInteger p.isMixedInteger) options).perform
        { c with log := c.log ++ [.coldStart (c.state.name opt) reason] } := by
  refine (perform_of_validated hv).trans ?_
  rw [hw]
  exact Action.perform_bind_of_ok (Action.perform_record _)

theorem perform_solve_of_fault (hw : c.state.warmPlan opt p warm = .error .fault) :
    (solve opt p warm options).perform c = (.error .fault, c) := by
  refine (perform_of_validated hv).trans ?_
  rw [hw]
  exact Action.perform_ofAttempt _

end Branches
section Solve

variable {σ : Type} {opt : Optimizer α σ ω} {s : Session α σ} {p : Problem α} {warm : Bool}
  {record : SolveRecord α} {options}

theorem yields_solve_cold {reason : Ineligible} {loaded solved : Instance σ}
    (hv : p.validate = .ok ()) (hw : s.warmPlan opt p warm = .error (.refused reason))
    (hl : (Instance.coldLoad opt p s.settings.coneMode).Yields s loaded s)
    (hr : (run opt s.settings (.ofMixedInteger p.isMixedInteger) options).Yields loaded
      record solved) (hd : record.status ≠ .failed) :
    (solve opt p warm options).Yields s record
      { s with cache := s.cache.store opt (s.name opt) solved p } := by
  refine .bind (Action.yields_ofAttempt (by rw [hv]; rfl)) (.bind Action.yields_state ?_)
  rw [hw]
  refine .bind (Action.yields_record _) (.bind Action.yields_state (.bind hl ?_))
  refine .bind (hr.startOn s) ?_
  dsimp only
  rw [if_neg hd]
  exact .bind (Action.yields_modifyState _) Action.yields_pure

theorem yields_solve_warm {snapshot : Snapshot α σ} {plan : Plan α} {changed : Instance σ}
    (hv : p.validate = .ok ()) (hw : s.warmPlan opt p warm = .ok (snapshot, plan))
    (hu : (update opt plan s.settings (.ofMixedInteger p.isMixedInteger) options).Yields
      snapshot.held record changed) (hd : record.status ≠ .failed) :
    (solve opt p warm options).Yields s record
      { s with cache := (s.cache.erase (s.name opt)).store opt (s.name opt) changed p } := by
  refine .bind (Action.yields_ofAttempt (by rw [hv]; rfl)) (.bind Action.yields_state ?_)
  rw [hw]
  refine .bind Action.yields_state (.bind (Action.yields_modifyState _) ?_)
  refine .bind (Action.yields_record _) (.bind (hu.runOn _) ?_)
  dsimp only
  rw [if_neg hd]
  exact .bind (Action.yields_modifyState _) Action.yields_pure

end Solve
end Session
end ConicProgram
