import ConicProgram.Proofs.Optimizer.Ending
import ConicProgram.Proofs.Session.Requests

namespace ConicProgram

namespace Session

section Launch

variable {α σ ω : Type} [Scalar α] (opt : Optimizer α σ ω)

-- All that is done before the optimizer is asked to solve: the problem is in the instance, by a
-- plan or by a new load, and the controls are set.
def launch (p : Problem α) (warm : Bool) (options : SolveOptions α) :
    Action α (Session α σ) ω (SolveError α) (Instance σ) := do
  Action.ofAttempt (Attempt.mapCause .invalidProblem (.ofExcept p.validate))
  let s ← Action.state
  let set := Instance.call (applyOptions opt s.settings options)
  match s.warmPlan opt p warm with
  | .ok (snapshot, plan) =>
    Action.record (.warmStart (s.name opt) plan.objective.length plan.matrix.length
      plan.rhs.length plan.kinds.length)
    return (← (Instance.call (plan.apply opt) >>= fun _ => set).startOn snapshot.held).2
  | .error .fault => Action.ofAttempt .fault
  | .error (.refused reason) =>
    Action.record (.coldStart (s.name opt) reason)
    let loaded ← Instance.coldLoad opt p s.settings.coneMode
    return (← set.startOn loaded).2

omit [Scalar α] in
-- The rest: the optimizer solves, and its result is read.
def conclude (kind : ProblemKind) : Action α (Instance σ) ω (SolveError α) (SolveRecord α) := do
  Instance.call opt.solve
  let code := opt.status (← Action.state).optimizer
  match SolveStatus.ofCode? kind code with
  | none => Action.refuse (.unknownStatus kind code)
  | some status =>
    Action.record (.finished opt.name status code)
    Instance.extract opt status kind

omit [Scalar α] in
theorem run_eq (settings : Settings) (kind : ProblemKind) (options : SolveOptions α) :
    run opt settings kind options =
      Instance.call (applyOptions opt settings options) >>= fun _ => conclude opt kind :=
  rfl

end Launch
end Session

section Parts

variable {α σ τ ω ε β γ : Type} {a : Action α σ ω ε β} {s : σ} {c c' : Context α τ ω}

-- An action in two parts, seen from its first part that is done for the state that it leaves. If the
-- first part fails that state is lost, and the rest is not done.
theorem Action.perform_bind_of_startOn {r} (g : Action α σ ω ε γ) :
    (do return (← a.startOn s).2 : Action α τ ω ε σ).perform c = (r, c') →
    ∃ lost, (a >>= fun _ => g).perform ⟨s, c.outside, c.log⟩ = match r with
      | .error e => (.error e, ⟨lost, c'.outside, c'.log⟩)
      | .ok s' => g.perform ⟨s', c'.outside, c'.log⟩ := by
  intro h
  rw [perform_bind, perform_startOn] at h
  rw [perform_bind]
  dsimp only at h
  cases ha : a.perform ⟨s, c.outside, c.log⟩
  case mk r' d =>
  rw [ha] at h
  refine ⟨d.state, ?_⟩
  cases r' <;> cases h <;> rfl

theorem Action.map_fst_perform_startOn :
    ((a.startOn s : Action α τ ω ε (β × σ)).perform c).1.map (·.1) =
      (a.perform ⟨s, c.outside, c.log⟩).1 := by
  rw [perform_startOn]
  cases h : (a.perform ⟨s, c.outside, c.log⟩).1 <;> simp only [h] <;> rfl

end Parts

-- What a caller is given of a result: nothing without a solution, or else the part that belongs to
-- the `n` variables and the `k` linear rows of the problem.
def Ending.record {α : Type} (solved : Solved α) (n k : Nat) : Ending → SolveRecord α
  | relaxed .solved => {
    status := .optimal
    objective := solved.objective
    primal := solved.primal.map (·.take n)
    duals := solved.duals.map (·.take k)
    infeasible := false }
  | searched .optimal => {
    status := .optimal
    objective := solved.objective
    primal := solved.primal.map (·.take n)
    duals := none
    infeasible := false }
  | e => .withoutSolution e.status

section Record

variable {α : Type} {solved : Solved α} {n k : Nat} {e : Ending}

theorem Ending.record_of_ne_optimal (h : e.status ≠ .optimal) :
    e.record solved n k = .withoutSolution e.status := by
  rcases e with (_ | _) | (_ | _) <;> first | rfl | exact absurd rfl h

theorem Ending.status_record : (e.record solved n k).status = e.status := by
  rcases e with (_ | _) | (_ | _) <;> rfl

theorem Ending.infeasible_record :
    (e.record solved n k).infeasible = true ↔ e.status = .infeasible := by
  rcases e with (_ | _) | (_ | _) <;> simp [record, SolveRecord.withoutSolution, status]

end Record

namespace Session

section Launch

variable {α σ ω : Type} [Scalar α] {opt : Optimizer α σ ω} {p : Problem α} {warm : Bool}
  {options : SolveOptions α} {c : Context α (Session α σ) ω}

section Branches

variable (hv : p.validate = .ok ())
include hv

theorem perform_launch_of_warm {snapshot : Snapshot α σ} {plan : Plan α}
    (hw : c.state.warmPlan opt p warm = .ok (snapshot, plan)) :
    (launch opt p warm options).perform c = Action.perform
      (do return (← (Instance.call (plan.apply opt) >>= fun _ => Instance.call
        (applyOptions opt c.state.settings options)).startOn snapshot.held).2)
      { c with log := c.log ++ [.warmStart (c.state.name opt) plan.objective.length
        plan.matrix.length plan.rhs.length plan.kinds.length] } := by
  refine (perform_of_validated hv).trans ?_
  dsimp only
  rw [hw]
  exact Action.perform_bind_of_ok (Action.perform_record _)

theorem perform_launch_of_cold {reason : Ineligible}
    (hw : c.state.warmPlan opt p warm = .error (.refused reason)) :
    (launch opt p warm options).perform c = Action.perform
      (do
        let loaded ← Instance.coldLoad opt p c.state.settings.coneMode
        return (← (Instance.call (applyOptions opt c.state.settings options)).startOn loaded).2)
      { c with log := c.log ++ [.coldStart (c.state.name opt) reason] } := by
  refine (perform_of_validated hv).trans ?_
  dsimp only
  rw [hw]
  exact Action.perform_bind_of_ok (Action.perform_record _)

theorem perform_launch_of_fault (hw : c.state.warmPlan opt p warm = .error .fault) :
    (launch opt p warm options).perform c = (.error .fault, c) := by
  refine (perform_of_validated hv).trans ?_
  dsimp only
  rw [hw]
  exact Action.perform_ofAttempt _

end Branches

-- What becomes of a new instance: what comes out of its first run, and what lies outside then.
theorem perform_loadAndRun {r d} :
    Action.perform (do
        let loaded ← Instance.coldLoad opt p c.state.settings.coneMode
        return (← (Instance.call (applyOptions opt c.state.settings options)).startOn loaded).2) c =
      (r, d) →
    ((loadAndRun opt p options c.state.settings).perform c).1.map (·.1) =
      (r >>= fun s => ((conclude opt (.ofMixedInteger p.isMixedInteger)).perform
        ⟨s, d.outside, d.log⟩).1) ∧
    ((loadAndRun opt p options c.state.settings).perform c).2.outside = match r with
      | .error _ => d.outside
      | .ok s => ((conclude opt (.ofMixedInteger p.isMixedInteger)).perform
          ⟨s, d.outside, d.log⟩).2.outside := by
  intro h
  rw [loadAndRun]
  cases hl : (Instance.coldLoad opt p c.state.settings.coneMode :
    Action α (Session α σ) ω _ _).perform c
  case mk l d' =>
  cases l
  case error e =>
    rw [Action.perform_bind_of_error hl] at h ⊢
    cases h
    exact ⟨rfl, rfl⟩
  case ok loaded =>
    rw [Action.perform_bind_of_ok hl] at h ⊢
    obtain ⟨_, hb⟩ := Action.perform_bind_of_startOn
      (conclude opt (.ofMixedInteger p.isMixedInteger)) h
    rw [run_eq, Action.map_fst_perform_startOn, Action.perform_startOn]
    dsimp only
    rw [hb]
    cases r <;> exact ⟨rfl, rfl⟩

-- What comes out of a solve that an optimizer does not break off as it takes its changes back.
theorem fst_solve_of_launch {r d} (hb : ∀ snapshot plan, p.validate = .ok () →
      c.state.warmPlan opt p warm = .ok (snapshot, plan) →
      (takeBack opt p options c snapshot plan).1 ≠ .error .fault)
    (h : (launch opt p warm options).perform c = (r, d)) :
    ((solve opt p warm options).perform c).1 =
      r >>= fun s => ((conclude opt (.ofMixedInteger p.isMixedInteger)).perform
        ⟨s, d.outside, d.log⟩).1 := by
  cases hv : p.validate
  case error cause =>
    cases (perform_of_invalid hv).symm.trans h
    rw [perform_solve_of_invalid hv]
    rfl
  case ok =>
    have hs := step_solve opt p options warm c
    cases hw : c.state.warmPlan opt p warm
    case ok x =>
      rw [perform_launch_of_warm hv hw] at h
      have ⟨_, hu⟩ := Action.perform_bind_of_startOn
        (conclude opt (.ofMixedInteger p.isMixedInteger)) h
      rw [hs.eq_warmUpdate hv hw (hb _ _ hv hw), warmUpdate, update, run_eq, ← bind_assoc, hu]
      cases r <;> rfl
    case error e =>
      cases e
      case fault =>
        cases (perform_launch_of_fault hv hw).symm.trans h
        exact hs.eq_fault hv hw
      case refused reason =>
        rw [perform_launch_of_cold hv hw] at h
        rw [hs.eq_loadAndRun hv hw]
        exact (perform_loadAndRun h).1

end Launch
end Session

namespace Instance

theorem perform_call {α σ ω β : Type} {a : Action α σ ω (OptimizerError α) β} {s : Instance σ}
    {o : ω} {log : List (Event α)} {r d} (h : a.perform ⟨s.optimizer, o, log⟩ = (r, d)) :
    (call a).perform ⟨s, o, log⟩ = (Attempt.mapCause .rejected r,
      ⟨{ s with optimizer := d.state }, d.outside, d.log⟩) := by
  rw [call, Action.perform_within, Action.perform_mapCause, h]

variable {α ω : Type} [Scalar α] {s : Instance (ReferenceOptimizer α)} {p : Problem α}
  {mode : ConeMode} {m : Model α}

theorem Frames.hasDiscrete (h : s.Frames p mode) (hp : p.Valid) (hm : s.optimizer.model = some m) :
    m.hasDiscrete = p.isMixedInteger := by
  have ⟨m', hm', _, hk, _⟩ := h.model
  cases hm.symm.trans hm'
  have ⟨n, hl, _⟩ := p.map_kind_loaded mode
  have hc : m.hasDiscrete = (m.columns.map (·.kind)).any (·.isDiscrete) := by
    rw [List.any_map]
    rfl
  rw [hc, hk, hl, List.any_append, hp.any_isDiscrete_kinds]
  simp [ColumnKind.isDiscrete]

omit [Scalar α] in
theorem yields_reading {β : Type} {part : Solved α → Option β} {solved : Solved α} {b : β}
    (hr : s.optimizer.result = some solved) (hb : part solved = some b) :
    (call (ReferenceOptimizer.reading part : ReferenceOptimizer.Call α ω β)).Yields s b s := by
  refine yields_call (Action.Yields.bind Action.yields_state ?_)
  rw [hr, Option.bind_some, hb]
  exact Action.yields_pure

-- A result with what its status promises can be read.
theorem yields_extract {solved : Solved α} {e : Ending} (engine : Engine α ω)
    (hr : s.optimizer.result = some solved) (h : ReferenceOptimizer.Solved.Reports solved e) :
    (extract (ReferenceOptimizer.operations engine) e.status e.kind).Yields s
      (e.record solved s.variableCount s.linearRows) s := by
  unfold extract
  split
  case isTrue hs =>
    rw [Ending.record_of_ne_optimal (by simpa [SolveStatus.hasSolution] using hs)]
    exact Action.yields_pure
  case isFalse hs =>
    have hs : e.status = .optimal := by simpa [SolveStatus.hasSolution] using hs
    have ⟨x, hx⟩ := Option.isSome_iff_exists.mp (h.primal hs)
    have ho : s.optimizer.objectiveValue = solved.objective := by
      rw [ReferenceOptimizer.objectiveValue, hr, Option.bind_some]
    cases e
    case relaxed outcome =>
      cases Ending.status_relaxed_eq_optimal_iff.mp hs
      have ⟨y, hy⟩ := Option.isSome_iff_exists.mp (h.duals hs rfl)
      rw [Ending.record, hx, hy, ← ho]
      exact .bind Action.yields_state (.bind (yields_reading hr hx) (.bind
        (yields_reading hr hy) (.bind Action.yields_pure
          (.bind Action.yields_state Action.yields_pure))))
    case searched status =>
      cases Ending.status_searched_eq_optimal_iff.mp hs
      rw [Ending.record, hx, ← ho]
      exact .bind Action.yields_state (.bind (yields_reading hr hx) (.bind Action.yields_pure
        (.bind Action.yields_state Action.yields_pure)))

end Instance

namespace Session

variable {α ω : Type} [Scalar α] {engine : Engine α ω} {p : Problem α} {warm : Bool}
  {options : SolveOptions α}

section Conclude

variable {s : Instance (ReferenceOptimizer α)} {m : Model α} {o : ω} {log : List (Event α)}
  (hm : s.optimizer.model = some m)
include hm

theorem fst_perform_conclude_of_error {e d} (h : (m.ending engine s.optimizer.controls
      m.hasDiscrete).perform ⟨s.optimizer.forget, o, log⟩ = (.error e, d)) (kind : ProblemKind) :
    ((conclude (ReferenceOptimizer.operations engine) kind).perform ⟨s, o, log⟩).1 =
      Attempt.mapCause .rejected (.error e) := by
  have hs := Instance.perform_call (ReferenceOptimizer.perform_solve_of_error hm h)
  cases e <;> exact congrArg Prod.fst (Action.perform_bind_of_error hs)

omit hm in
theorem fst_perform_conclude_of_reports {solved : Solved α} {e : Ending} {t}
    (hs : (ReferenceOptimizer.operations engine).solve.perform ⟨s.optimizer, o, log⟩ = (.ok (), t))
    (hr : t.state.result = some solved) (hrep : ReferenceOptimizer.Solved.Reports solved e) :
    ((conclude (ReferenceOptimizer.operations engine) e.kind).perform ⟨s, o, log⟩).1 =
      .ok (e.record solved s.variableCount s.linearRows) := by
  have hcode : (ReferenceOptimizer.operations engine).status t.state = e.code := by
    show t.state.status = e.code
    rw [ReferenceOptimizer.status, hr]
    exact hrep.status
  have hy := Instance.yields_extract (s := { s with optimizer := t.state }) engine hr hrep
  have ⟨_, hy⟩ := hy t.outside (t.log ++ [.finished "CLARABEL" e.status e.code])
  rw [conclude, Action.perform_bind_of_ok (Instance.perform_call hs),
    Action.perform_bind_of_ok Action.perform_state]
  dsimp only
  rw [hcode, e.ofCode?_code]
  dsimp only
  rw [Action.perform_bind_of_ok (Action.perform_record _)]
  exact congrArg Prod.fst hy

theorem fst_perform_conclude_of_ending {e d} (h : (m.ending engine s.optimizer.controls
      m.hasDiscrete).perform ⟨s.optimizer.forget, o, log⟩ = (.ok e, d)) :
    ∃ record, ((conclude (ReferenceOptimizer.operations engine) (.ofMixedInteger
        m.hasDiscrete)).perform ⟨s, o, log⟩).1 = .ok record ∧ record.status = e.status := by
  have ⟨solved, t, hs, hr, hrep⟩ := ReferenceOptimizer.perform_solve_of_ending hm h
  rw [← Model.kind_of_ending h]
  exact ⟨_, fst_perform_conclude_of_reports hs hr hrep, Ending.status_record⟩

end Conclude
section Launched

def Unread (e : Failure (SolveError α)) : Prop :=
  ∀ kind code, e ≠ .refused (.unknownStatus kind code)

def Launched (p : Problem α) : Attempt (SolveError α) (Instance (ReferenceOptimizer α)) → Prop
  | .ok s => p.Valid ∧ ∃ mode, s.Frames p mode
  | .error e => Unread e

omit [Scalar α] in
theorem ensures_call {σ β : Type} (a : Action α σ ω (OptimizerError α) β) (s : Instance σ) :
    (Instance.call a).Ensures s fun r _ => ∀ e, r = .error e → Unread e := by
  intro o log e he kind code
  cases h : a.perform ⟨s.optimizer, o, log⟩
  case mk r d =>
  rw [Instance.perform_call h] at he
  rcases r with (_ | _) | _ <;> cases he <;> nofun

theorem ensures_launched {σ : Type}
    {a : Action α (Instance (ReferenceOptimizer α)) ω (SolveError α) Unit}
    {t : Instance (ReferenceOptimizer α)} {mode : ConeMode} (hp : p.Valid) (s : σ)
    (ha : a.Ensures t fun r t' => (∀ e, r = .error e → Unread e) ∧ t'.Frames p mode) :
    (do return (← a.startOn t).2 : Action α σ ω (SolveError α) _).Ensures s fun r _ =>
      Launched p r := by
  refine (ha.startOn_cases s).bind (fun x _ ⟨_, hx⟩ => ?_) fun e _ ⟨_, he⟩ => ?_
  case refine_1 =>
    rcases hx with ⟨_, _, hx, _⟩ | ⟨_, _, hx, _, hf⟩ <;> cases hx
    exact Action.ensures_pure ⟨hp, mode, hf⟩
  case refine_2 =>
    rcases he with ⟨_, _, he, hu, _⟩ | ⟨_, _, he, _⟩ <;> cases he
    exact hu _ rfl

variable [Numeric α] {s : Session α (ReferenceOptimizer α)}

theorem ensures_launch (hc : s.cache.Outlined) (hi : p.Indexable) :
    (launch (ReferenceOptimizer.operations engine) p warm options).Ensures s fun r _ =>
      Launched p r := by
  have hset {t : Instance (ReferenceOptimizer α)} {mode : ConeMode} (ht : t.Frames p mode) :
      (Instance.call (applyOptions (ReferenceOptimizer.operations engine) s.settings
        options)).Ensures t fun r t' => (∀ e, r = .error e → Unread e) ∧ t'.Frames p mode := by
    have hk := Instance.keeps_call (keeps_applyOptions (fun _ _ => rfl) engine s.settings options)
    exact ((ensures_call _ t).and (hk.ensures t)).mono fun _ _ ⟨hu, ht'⟩ =>
      ⟨hu, ht.of_content ht'⟩
  refine ensures_of_validate (fun _ _ _ => nofun) fun hv => ?_
  have hp := Problem.valid_of_validate hv
  dsimp only
  split
  case h_1 snapshot plan hw =>
    have ⟨_, hs, hplan⟩ := warmPlan_eq_ok_iff.mp hw
    have ⟨q, mode, hq, _, ho⟩ := hc _ _ hs
    have ⟨_, changed, _, hy, hf, _⟩ :=
      ho.yields_apply (Problem.valid_of_validate hq) hp hplan engine
    refine (Action.yields_record _).ensures_bind ?_
    exact ensures_launched hp s (hy.ensures_bind (hset hf))
  case h_2 => exact Action.ensures_ofAttempt fun _ _ => nofun
  case h_3 =>
    refine (Action.yields_record _).ensures_bind ?_
    refine (hp.yields_coldLoad engine _ hv hi s).ensures_bind ?_
    exact ensures_launched hp s (hset (hp.frames_loadedInstance _))

end Launched
theorem fst_perform_conclude {s : Instance (ReferenceOptimizer α)} {mode : ConeMode}
    (h : s.Frames p mode) (hp : p.Valid) (engine : Engine α ω) (o : ω) (log : List (Event α)) :
    (∃ e t, (ReferenceOptimizer.operations engine).solve.perform ⟨s.optimizer, o, log⟩ =
        (.error e, t) ∧
      ((conclude (ReferenceOptimizer.operations engine) (.ofMixedInteger p.isMixedInteger)).perform
        ⟨s, o, log⟩).1 = Attempt.mapCause .rejected (.error e)) ∨
    ∃ t m ending record,
      (ReferenceOptimizer.operations engine).solve.perform ⟨s.optimizer, o, log⟩ = (.ok (), t) ∧
      ((∃ kind ∈ t.state.kinds, kind.isDiscrete) ↔ p.isMixedInteger) ∧
      s.optimizer.model = some m ∧
      ((m.ending engine s.optimizer.controls p.isMixedInteger).perform
        ⟨s.optimizer.forget, o, log⟩).1 = .ok ending ∧
      ((conclude (ReferenceOptimizer.operations engine) (.ofMixedInteger p.isMixedInteger)).perform
        ⟨s, o, log⟩).1 = .ok record ∧
      record.status = ending.status := by
  have ⟨m, hm, _⟩ := h.model
  have hd := h.hasDiscrete hp hm
  cases he : (m.ending engine s.optimizer.controls m.hasDiscrete).perform
    ⟨s.optimizer.forget, o, log⟩
  case mk r d =>
  cases r
  case error e =>
    refine .inl ⟨e, d, ReferenceOptimizer.perform_solve_of_error hm he, ?_⟩
    exact fst_perform_conclude_of_error hm he _
  case ok ending =>
    have ⟨_, t, hs, _⟩ := ReferenceOptimizer.perform_solve_of_ending hm he
    have ⟨record, hr, hst⟩ := fst_perform_conclude_of_ending hm he
    rw [hd] at hr he
    refine .inr ⟨t, m, ending, record, hs, ?_, hm, congrArg Prod.fst he, hr, hst⟩
    have hk : t.state.model = s.optimizer.model := by
      have hk := ReferenceOptimizer.keeps_solve (f := (·.model)) (fun _ _ => rfl) engine
        ⟨s.optimizer, o, log⟩
      rw [hs] at hk
      exact hk
    rw [← hd, ReferenceOptimizer.kinds, hk, hm, Model.hasDiscrete]
    simp

-- In each solve the optimizer holds discrete columns exactly if the problem is a mixed-integer one,
-- and the status that is told is the one of the relaxation or of the search that it has made of
-- them. There is no status that cannot be read.
theorem solve_reads_ending [Numeric α] {c : Context α (Session α (ReferenceOptimizer α)) ω}
    (hc : Reached engine c) (hi : p.Indexable) (warm : Bool) (options : SolveOptions α) :
    (∀ e d, (launch (ReferenceOptimizer.operations engine) p warm options).perform c =
        (.error e, d) →
      ((solve (ReferenceOptimizer.operations engine) p warm options).perform c).1 = .error e) ∧
    (∀ s d, (launch (ReferenceOptimizer.operations engine) p warm options).perform c = (.ok s, d) →
      (∀ e t, (ReferenceOptimizer.operations engine).solve.perform
          ⟨s.optimizer, d.outside, d.log⟩ = (.error e, t) →
        ((solve (ReferenceOptimizer.operations engine) p warm options).perform c).1 =
          Attempt.mapCause .rejected (.error e)) ∧
      ∀ t, (ReferenceOptimizer.operations engine).solve.perform
          ⟨s.optimizer, d.outside, d.log⟩ = (.ok (), t) →
        ((∃ kind ∈ t.state.kinds, kind.isDiscrete) ↔ p.isMixedInteger) ∧
        ∃ m ending record, s.optimizer.model = some m ∧
          ((m.ending engine s.optimizer.controls p.isMixedInteger).perform
            ⟨s.optimizer.forget, d.outside, d.log⟩).1 = .ok ending ∧
          ((solve (ReferenceOptimizer.operations engine) p warm options).perform c).1 =
            .ok record ∧
          record.status = ending.status) ∧
    ∀ kind code, ((solve (ReferenceOptimizer.operations engine) p warm options).perform c).1 ≠
      .error (.refused (.unknownStatus kind code)) := by
  have hsolve {r d} (h : (launch (ReferenceOptimizer.operations engine) p warm options).perform c =
      (r, d)) := fst_solve_of_launch (fun _ _ hv hw => by
        rw [takeBack_eq_ok hc.outlined hv hw]
        nofun) h
  have hlaunched : Launched p
      ((launch (ReferenceOptimizer.operations engine) p warm options).perform c).1 :=
    ensures_launch (s := c.state) hc.outlined hi c.outside c.log
  refine ⟨fun e d h => hsolve h, fun s d h => ?_, ?_⟩
  case refine_1 =>
    rw [h] at hlaunched
    have ⟨hp, mode, hf⟩ := hlaunched
    rw [hsolve h]
    rcases fst_perform_conclude hf hp engine d.outside d.log with
      ⟨e, t, hs, hr⟩ | ⟨t, m, ending, record, hs, hrest⟩
    · refine ⟨fun e' t' hs' => ?_, fun t' hs' => ?_⟩ <;> cases hs.symm.trans hs'
      exact hr
    · refine ⟨fun e' t' hs' => ?_, fun t' hs' => ?_⟩ <;> cases hs.symm.trans hs'
      have ⟨hk, hm, he, hr, hst⟩ := hrest
      exact ⟨hk, m, ending, record, hm, he, hr, hst⟩
  case refine_2 =>
    intro kind code
    cases h : (launch (ReferenceOptimizer.operations engine) p warm options).perform c
    case mk r d =>
    rw [h] at hlaunched
    rw [hsolve h]
    cases r
    case error e => exact fun he => hlaunched kind code (Except.error.inj he)
    case ok s =>
      have ⟨hp, mode, hf⟩ := hlaunched
      rcases fst_perform_conclude hf hp engine d.outside d.log with
        ⟨e, _, _, hr⟩ | ⟨_, _, _, _, _, _, _, _, hr, _⟩
      · rcases e with _ | cause <;> exact fun he => by cases hr.symm.trans he
      · exact fun he => by cases hr.symm.trans he

section First

-- An engine that gives the same reply to each call.
theorem perform_solve_firstCall {engine : Engine Float Unit} (reply : EngineReply Float)
    (he : ∀ call, engine call = pure (.ok reply)) (log : List (Event Float))
    {s : ReferenceOptimizer Float} (hm : s.model = some (firstCall.problem.loaded .auxiliary)) :
    ∃ t, (ReferenceOptimizer.operations engine).solve.perform ⟨s, (), log⟩ = (.ok (), t) := by
  have hsc := admissible_firstCall.valid.scoped_loaded .auxiliary
  have hl : (firstCall.problem.loaded .auxiliary).columnBounds.length ≤
      (firstCall.problem.loaded .auxiliary).columnCount := by
    simp [Model.columnBounds, Model.columnCount]
  obtain ⟨a, ha, _⟩ := hsc.exists_assemble? hl
  have hs : (ReferenceOptimizer.operations engine).solve.Yields s () _ :=
    ReferenceOptimizer.yields_solve he hm rfl ha (Nat.succ_ne_zero _)
  obtain ⟨_, hs⟩ := hs () log
  exact ⟨_, hs⟩

theorem perform_launch_firstCall (engine : Engine Float Unit) : ∃ s d,
    (launch (ReferenceOptimizer.operations engine) firstCall.problem false {}).perform
      ⟨{ settings := {} }, (), []⟩ = (.ok s, d) ∧
    s.optimizer.model = some (firstCall.problem.loaded .auxiliary) := by
  have hp := admissible_firstCall
  have hl := hp.valid.yields_coldLoad engine .auxiliary hp.validated hp.indexable
    ({ settings := {} } : Session Float (ReferenceOptimizer Float))
  have ho := Instance.yields_call (s := firstCall.problem.loadedInstance .auxiliary) <|
    show (applyOptions (ReferenceOptimizer.operations engine) {} {}).Yields _ _ _ from
      yields_applyOptions {} _
  have hy : (launch (ReferenceOptimizer.operations engine) firstCall.problem false {}).Yields
      { settings := {} } _ { settings := {} } :=
    .bind (Action.yields_ofAttempt (by rw [hp.validated]; rfl)) (.bind Action.yields_state
      (.bind (Action.yields_record _) (.bind hl (.bind (ho.startOn _) Action.yields_pure))))
  have ⟨_, hy⟩ := hy () []
  exact ⟨_, _, hy, rfl⟩

theorem reached_new (engine : Engine Float Unit) (settings : Settings) :
    Reached engine ⟨{ settings }, (), []⟩ :=
  ⟨settings, (), [], [], nofun, rfl⟩

-- The first call is over continuous variables, and its result is read that way.
theorem solve_reads_ending_firstCall :
    ∃ s d t m ending record,
      (launch (ReferenceOptimizer.operations refuting) firstCall.problem false {}).perform
        ⟨{ settings := {} }, (), []⟩ = (.ok s, d) ∧
      (ReferenceOptimizer.operations refuting).solve.perform ⟨s.optimizer, d.outside, d.log⟩ =
        (.ok (), t) ∧
      (¬∃ kind ∈ t.state.kinds, kind.isDiscrete) ∧ s.optimizer.model = some m ∧
      ((m.ending refuting s.optimizer.controls false).perform
        ⟨s.optimizer.forget, d.outside, d.log⟩).1 = .ok ending ∧
      ((solve (ReferenceOptimizer.operations refuting) firstCall.problem false {}).perform
        ⟨{ settings := {} }, (), []⟩).1 = .ok record ∧
      record.status = ending.status := by
  have ⟨s, d, hl, hm⟩ := perform_launch_firstCall refuting
  have ⟨t, hs⟩ : ∃ t, (ReferenceOptimizer.operations refuting).solve.perform
      ⟨s.optimizer, d.outside, d.log⟩ = (.ok (), t) :=
    perform_solve_firstCall _ (fun _ => rfl) d.log hm
  have ⟨_, h, _⟩ := solve_reads_ending (reached_new refuting {}) admissible_firstCall.indexable false {}
  have ⟨hk, m, ending, record, hrest⟩ := (h s d hl).2 t hs
  have hn : ¬∃ kind ∈ t.state.kinds, kind.isDiscrete := fun hd => nomatch hk.mp hd
  exact ⟨s, d, t, m, ending, record, hl, hs, hn, hrest⟩

end First
end Session
end ConicProgram
