import ConicProgram.Proofs.Optimizer.Operations
import ConicProgram.Proofs.Session.Vocabulary

namespace ConicProgram

section Parts

variable {α ω τ : Type}

theorem ReferenceOptimizer.keeps_editing {β : Type} {f : ReferenceOptimizer α → τ}
    (hf : ∀ s model, f { s with model, result := none } = f s)
    (edit : Model α → Attempt (OptimizerError α) β × Model α) :
    (editing edit : Call α ω β).Keeps f := by
  intro c
  rw [perform_editing]
  split
  case h_1 => exact hf c.state c.state.model
  case h_2 m _ => exact hf c.state (some (edit m).2)

theorem ReferenceOptimizer.silent_editing {β : Type}
    (edit : Model α → Attempt (OptimizerError α) β × Model α) :
    (editing edit : Call α ω β).Silent := by
  intro c
  rw [perform_editing]
  split <;> rfl

variable [Scalar α]

-- A plan is carried out by groups of writes, of which those that are empty are left out.
theorem Plan.apply_of {P : ∀ {β : Type}, ReferenceOptimizer.Call α ω β → Prop}
    (h : Action.Hereditary P)
    (hwrites : ∀ ws : List (Model.Write α), P (ReferenceOptimizer.editing fun m => m.writeAll ws))
    (plan : Plan α) (engine : Engine α ω) :
    P (plan.apply (ReferenceOptimizer.operations engine)) := by
  have hgroup {part : String} {agree : Bool} {ws : List (Model.Write α)} :
      P (do
        ReferenceOptimizer.checkLengths part agree
        ReferenceOptimizer.editing fun m => m.writeAll ws) := by
    refine h.bind ?_ fun _ => hwrites ws
    unfold ReferenceOptimizer.checkLengths
    split
    case isTrue => exact h.pure ()
    case isFalse => exact h.ofAttempt _
  have hnext {skip : Bool} {group rest : ReferenceOptimizer.Call α ω Unit} (hg : P group)
      (hr : P rest) : P (if skip then rest else group >>= fun _ => rest) := by
    cases skip
    case false => exact h.bind hg fun _ => hr
    case true => exact hr
  refine hnext hgroup (hnext hgroup (hnext hgroup ?_))
  split
  case isTrue => exact h.pure ()
  case isFalse => exact hgroup

theorem Plan.keeps_apply {f : ReferenceOptimizer α → τ}
    (hf : ∀ s model, f { s with model, result := none } = f s) (plan : Plan α)
    (engine : Engine α ω) : (plan.apply (ReferenceOptimizer.operations engine)).Keeps f :=
  plan.apply_of (Action.hereditary_keeps f) (fun _ => ReferenceOptimizer.keeps_editing hf _) engine

theorem Plan.silent_apply (plan : Plan α) (engine : Engine α ω) :
    (plan.apply (ReferenceOptimizer.operations engine)).Silent :=
  plan.apply_of Action.hereditary_silent (fun _ => ReferenceOptimizer.silent_editing _) engine

end Parts

namespace Instance

variable {α ω τ β : Type} {s : Instance (ReferenceOptimizer α)}

theorem keeps_call_part {f : ReferenceOptimizer α → τ} {a : ReferenceOptimizer.Call α ω β}
    (h : a.Keeps f) : (call a).Keeps fun s => f s.optimizer := by
  have ha : (a.mapCause .rejected : Action α _ ω (SolveError α) β).Keeps f := h
  exact ha.within fun _ _ ho => ho

theorem silent_call {a : ReferenceOptimizer.Call α ω β} (h : a.Silent) : (call a).Silent := by
  have ha : (a.mapCause .rejected : Action α _ ω (SolveError α) β).Silent := h
  exact ha.within

variable [Scalar α]

theorem silent_extract (engine : Engine α ω) (status : SolveStatus) (kind : ProblemKind) :
    (extract (ReferenceOptimizer.operations engine) status kind).Silent :=
  extract_of Action.hereditary_silent Action.silent_state (fun part => silent_call fun c => by
    rw [ReferenceOptimizer.perform_reading]) engine status kind

end Instance

-- Each instance in the cache goes back to the standard controls.
def Cache.Resets {α : Type} [Scalar α] (c : Cache α (ReferenceOptimizer α)) : Prop :=
  ∀ name snapshot, c.get? name = some snapshot → snapshot.held.optimizer.initial = .standard

namespace Session

variable {α ω : Type} [Scalar α] {engine : Engine α ω} {p : Problem α} {warm : Bool}
  {options : SolveOptions α}

section Initial

theorem keeps_initial_run (engine : Engine α ω) (settings : Settings) (options : SolveOptions α)
    (kind : ProblemKind) :
    (run (ReferenceOptimizer.operations engine) settings kind options).Keeps
      fun s => s.optimizer.initial :=
  run_of (Action.hereditary_keeps _) Action.keeps_state
    (fun _ => Instance.keeps_call_part (ReferenceOptimizer.keeps_reading _)) engine
    (Instance.keeps_call_part (keeps_applyOptions (fun _ _ => rfl) engine settings options))
    (Instance.keeps_call_part (ReferenceOptimizer.keeps_solve (fun _ _ => rfl) engine)) kind

variable {c : Context α (Session α (ReferenceOptimizer α)) ω}

theorem initial_of_loadAndRun {settings : Settings} {record : SolveRecord α}
    {solved : Instance (ReferenceOptimizer α)} {d} (hv : p.validate = .ok ()) (hi : p.Indexable)
    (hr : (loadAndRun (ReferenceOptimizer.operations engine) p options settings).perform c =
      (.ok (record, solved), d)) : solved.optimizer.initial = .standard := by
  have hk := keeps_initial_run engine settings options (.ofMixedInteger p.isMixedInteger)
  have he : (loadAndRun (ReferenceOptimizer.operations engine) p options settings).Ensures
      c.state fun r s => s = c.state ∧ ∀ record solved, r = .ok (record, solved) →
        solved.optimizer.initial = .standard :=
    ((Problem.valid_of_validate hv).yields_coldLoad engine _ hv hi _).ensures_bind
      ((hk.ensures _).startOn _)
  exact (he c.outside c.log).2 record solved (congrArg Prod.fst hr)

theorem initial_warmUpdate (snapshot : Snapshot α (ReferenceOptimizer α)) (plan : Plan α) :
    (warmUpdate (ReferenceOptimizer.operations engine) p options c snapshot
      plan).2.state.optimizer.initial = snapshot.held.optimizer.initial :=
  ((Instance.keeps_call_part (f := (·.initial)) (plan.keeps_apply (fun _ _ => rfl) engine)).bind
    fun _ => keeps_initial_run engine c.state.settings _ _) _

theorem initial_takeBack (snapshot : Snapshot α (ReferenceOptimizer α)) (plan : Plan α) :
    (takeBack (ReferenceOptimizer.operations engine) p options c snapshot
      plan).2.state.optimizer.initial = snapshot.held.optimizer.initial :=
  (Instance.keeps_call_part (f := (·.initial))
    (plan.reversed.keeps_apply (fun _ _ => rfl) engine) _).trans (initial_warmUpdate snapshot plan)

theorem Step.resets {r} {s : Session α (ReferenceOptimizer α)}
    (h : Step (ReferenceOptimizer.operations engine) p options warm c r s)
    (hc : c.state.cache.Resets) (hi : p.Indexable) : s.cache.Resets := by
  cases h
  case invalid => exact hc
  case unloaded => exact hc
  case faulted => exact hc
  case dropped => exact Cache.forall_erase hc _
  case lost => exact Cache.forall_erase hc _
  case loaded hv _ hr _ => exact Cache.forall_store hc _ (initial_of_loadAndRun hv hi hr)
  case updated snapshot plan _ hv hw _ _ =>
    have ⟨_, hs, _⟩ := warmPlan_eq_ok_iff.mp hw
    exact Cache.forall_store (Cache.forall_erase hc _) _
      ((initial_warmUpdate snapshot plan).trans (hc _ _ hs))
  case restored snapshot plan hv hw _ _ _ =>
    have ⟨_, hs, _⟩ := warmPlan_eq_ok_iff.mp hw
    exact Cache.forall_restore (Cache.forall_erase hc _) _
      ((initial_takeBack snapshot plan).trans (hc _ _ hs))

theorem resets_run {request : Request α} (hc : c.state.cache.Resets) (hi : request.Indexable) :
    ((request.run (ReferenceOptimizer.operations engine)).perform c).2.state.cache.Resets := by
  cases request
  case solve call =>
    rw [Request.perform_solve]
    exact (step_solve _ call.problem call.options call.warm c).resets hc hi
  case store name p mode =>
    obtain h | ⟨_, h⟩ := Request.state_store name mode hi
    · rwa [h]
    · rw [h]
      exact Cache.forall_store hc name rfl
  case invalidate name => exact Cache.forall_erase hc name
  case clear => exact Cache.forall_empty

theorem Reached.resets (h : Reached engine c) : c.state.cache.Resets := by
  have ⟨_, _, _, _, hi, hc⟩ := h
  rw [hc]
  exact serve_keeps (P := fun c => c.state.cache.Resets)
    (fun _ request hm hc => resets_run hc (hi request hm)) Cache.forall_empty

end Initial
section Launch

variable {c : Context α (Session α (ReferenceOptimizer α)) ω} {mode : ConeMode}
  {t u : Instance (ReferenceOptimizer α)}
  {a b : Action α (Instance (ReferenceOptimizer α)) ω (SolveError α) Unit}
  {set : Except (OptimizerError α) (Controls α)}

-- The action takes the instance to the problem and sets its controls, or else it is turned down. It
-- asks nothing outside.
def Readies (a : Action α (Instance (ReferenceOptimizer α)) ω (SolveError α) Unit)
    (t : Instance (ReferenceOptimizer α)) (p : Problem α) (mode : ConeMode)
    (set : Except (OptimizerError α) (Controls α)) : Prop :=
  ∀ o log, ∃ (s : Instance (ReferenceOptimizer α)) (log' : List (Event α)), s.Frames p mode ∧
    a.perform ⟨t, o, log⟩ =
      (Attempt.mapCause .rejected (Attempt.ofExcept set) >>= fun _ => pure (), ⟨s, o, log'⟩) ∧
    ∀ controls, set = .ok controls → s.optimizer.controls = controls

-- The options set the controls of an instance that goes back to the standard ones.
theorem readies_applyOptions (hf : t.Frames p mode) (ht : t.optimizer.initial = .standard)
    (engine : Engine α ω) (settings : Settings) (options : SolveOptions α) :
    Readies (Instance.call (applyOptions (ReferenceOptimizer.operations engine) settings options))
      t p mode (options.controlsFrom settings .standard) := by
  intro o log
  have ⟨controls, log', h, hk⟩ := perform_applyOptions engine settings options t.optimizer o log
  rw [← ht]
  refine ⟨{ t with optimizer := { t.optimizer with controls } }, log', hf.of_content rfl, ?_, hk⟩
  rw [Instance.perform_call h]
  cases options.controlsFrom settings t.optimizer.initial <;> rfl

theorem Readies.after (ha : Readies a t p mode set) (hb : b.Yields u () t) :
    Readies (b >>= fun _ => a) u p mode set := by
  intro o log
  have ⟨log', hb⟩ := hb o log
  rw [Action.perform_bind_of_ok hb]
  exact ha o log'

theorem Readies.startOn (ha : Readies a t p mode set)
    (c : Context α (Session α (ReferenceOptimizer α)) ω) :
    ∃ (s : Instance (ReferenceOptimizer α)) (log' : List (Event α)), s.Frames p mode ∧
      (do return (← a.startOn t).2 : Action α _ ω (SolveError α) _).perform c =
        (Attempt.mapCause .rejected (Attempt.ofExcept set) >>= fun _ => pure s,
          ⟨c.state, c.outside, log'⟩) ∧
      ∀ controls, set = .ok controls → s.optimizer.controls = controls := by
  have ⟨s, log', hs, ha, hk⟩ := ha c.outside c.log
  refine ⟨s, log', hs, ?_, hk⟩
  rw [Action.perform_bind, Action.perform_startOn, ha]
  cases set <;> rfl

theorem warmPlan_ne_fault [Numeric α] (hc : c.state.cache.Outlined) (hp : p.Valid)
    (engine : Engine α ω) (warm : Bool) :
    c.state.warmPlan (ReferenceOptimizer.operations engine) p warm ≠ .error .fault := by
  unfold warmPlan
  split
  case isTrue => nofun
  case isFalse =>
    split
    case h_1 => nofun
    case h_2 snapshot hs =>
      have ⟨q, mode, hq, _, ho⟩ := hc _ _ hs
      have hn := ho.plan_ne_fault (Problem.valid_of_validate hq) hp
      cases hplan : snapshot.plan p
      case ok => nofun
      case error e => exact fun h => hn (hplan.trans (congrArg _ (Except.error.inj h)))

-- Each solve of a valid problem starts from an instance of it, with the controls that the options
-- make of the standard ones. Until then nothing outside is asked.
theorem perform_launch [Numeric α] (hc : c.state.cache.Outlined) (hr : c.state.cache.Resets)
    (hv : p.validate = .ok ()) (hi : p.Indexable) (engine : Engine α ω) (warm : Bool)
    (options : SolveOptions α) :
    ∃ (mode : ConeMode) (s : Instance (ReferenceOptimizer α)) (log' : List (Event α)),
      s.Frames p mode ∧
      (launch (ReferenceOptimizer.operations engine) p warm options).perform c =
        (Attempt.mapCause .rejected
            (Attempt.ofExcept (options.controlsFrom c.state.settings .standard)) >>= fun _ => pure s,
          ⟨c.state, c.outside, log'⟩) ∧
      ∀ controls, options.controlsFrom c.state.settings .standard = .ok controls →
        s.optimizer.controls = controls := by
  have hp := Problem.valid_of_validate hv
  cases hw : c.state.warmPlan (ReferenceOptimizer.operations engine) p warm
  case ok x =>
    have ⟨snapshot, plan⟩ := x
    have ⟨_, hs, hplan⟩ := warmPlan_eq_ok_iff.mp hw
    have ⟨q, mode, hq, _, ho⟩ := hc _ _ hs
    have ⟨_, changed, _, hy, hf, _⟩ :=
      ho.yields_apply (Problem.valid_of_validate hq) hp hplan engine
    have hk := Instance.keeps_call_part (f := (·.initial))
      (plan.keeps_apply (fun _ _ => rfl) engine)
    have ht : changed.optimizer.initial = .standard :=
      (hk.eq_of_yields c.outside hy).trans (hr _ _ hs)
    rw [perform_launch_of_warm hv hw]
    have hready := readies_applyOptions hf ht engine c.state.settings options
    exact ⟨mode, (hready.after hy).startOn _⟩
  case error e =>
    cases e
    case fault => exact absurd hw (warmPlan_ne_fault hc hp engine warm)
    case refused reason =>
      have ⟨log, hl⟩ := hp.yields_coldLoad engine c.state.settings.coneMode hv hi c.state
        c.outside (c.log ++ [.coldStart
          (c.state.name (ReferenceOptimizer.operations engine)) reason])
      rw [perform_launch_of_cold hv hw, Action.perform_bind_of_ok hl]
      have hready := readies_applyOptions (hp.frames_loadedInstance c.state.settings.coneMode) rfl
        engine c.state.settings options
      exact ⟨_, hready.startOn ⟨c.state, c.outside, log⟩⟩

-- The changes to an instance can be taken back, so what comes out of a solve is what is read in the
-- end or why it has not been launched.
theorem fst_solve_of_outlined [Numeric α] {r d} (hc : c.state.cache.Outlined)
    (h : (launch (ReferenceOptimizer.operations engine) p warm options).perform c = (r, d)) :
    ((solve (ReferenceOptimizer.operations engine) p warm options).perform c).1 =
      r >>= fun s => ((conclude (ReferenceOptimizer.operations engine) (.ofMixedInteger
        p.isMixedInteger)).perform ⟨s, d.outside, d.log⟩).1 := by
  refine fst_solve_of_launch (fun snapshot plan hv hw => ?_) h
  rw [takeBack_eq_ok hc hv hw]
  nofun

end Launch

section Outside

variable {c : Context α (Session α (ReferenceOptimizer α)) ω}

theorem outside_conclude (kind : ProblemKind) (s : Instance (ReferenceOptimizer α)) (o : ω)
    (log : List (Event α)) :
    ((conclude (ReferenceOptimizer.operations engine) kind).perform ⟨s, o, log⟩).2.outside =
      ((ReferenceOptimizer.solve engine).perform ⟨s.optimizer, o, log⟩).2.outside := by
  refine (Action.outside_bind_of_silent fun _ => Action.silent_state.bind fun s => ?_).trans ?_
  case refine_1 =>
    dsimp only
    split
    case h_1 => exact Action.silent_ofAttempt _
    case h_2 status _ =>
      exact Action.hereditary_silent.bind (Action.hereditary_silent.record _) fun _ =>
        Instance.silent_extract engine status kind
  case refine_2 =>
    rw [Instance.call, Action.perform_within]
    rfl

theorem silent_rollBack (name : String) (snapshot : Snapshot α (ReferenceOptimizer α))
    (plan : Plan α) (changed : Instance (ReferenceOptimizer α)) :
    (rollBack (ReferenceOptimizer.operations engine) name snapshot plan changed).Silent := by
  refine ((Instance.silent_call (plan.reversed.silent_apply engine)).runOn changed).bind fun r => ?_
  rcases r with ⟨(_ | cause) | _, held⟩
  case error.fault => exact Action.silent_ofAttempt _
  case error.refused => exact Action.hereditary_silent.record _
  case ok => exact Action.silent_modifyState _

theorem outside_solve_of_warm {snapshot : Snapshot α (ReferenceOptimizer α)} {plan : Plan α}
    (hv : p.validate = .ok ())
    (hw : c.state.warmPlan (ReferenceOptimizer.operations engine) p warm = .ok (snapshot, plan)) :
    ((solve (ReferenceOptimizer.operations engine) p warm options).perform c).2.outside =
      (warmUpdate (ReferenceOptimizer.operations engine) p options c snapshot plan).2.outside := by
  rw [perform_solve_of_warm hv hw]
  cases h : warmUpdate (ReferenceOptimizer.operations engine) p options c snapshot plan
  case mk r d =>
  rw [perform_solveWarm h]
  rcases r with (_ | cause) | record
  case error.fault => rfl
  case error.refused =>
    exact (silent_rollBack _ snapshot plan d.state).bind (fun _ => Action.silent_ofAttempt _) _
  case ok =>
    dsimp only
    split
    case isTrue =>
      exact (silent_rollBack _ snapshot plan d.state).bind (fun _ => fun _ => rfl) _
    case isFalse => rfl

theorem outside_solve_of_cold {reason : Ineligible} (hv : p.validate = .ok ())
    (hw : c.state.warmPlan (ReferenceOptimizer.operations engine) p warm =
      .error (.refused reason)) :
    ((solve (ReferenceOptimizer.operations engine) p warm options).perform c).2.outside =
      ((loadAndRun (ReferenceOptimizer.operations engine) p options c.state.settings).perform
        { c with log := c.log ++ [.coldStart
          (c.state.name (ReferenceOptimizer.operations engine)) reason] }).2.outside := by
  rw [perform_solve_of_cold hv hw, perform_solveCold rfl]
  split
  case h_1 he => rfl
  case h_2 he =>
    dsimp only
    split <;> rfl

-- What a solve asks is what its optimizer asks, once the solve has been launched.
theorem outside_solve_of_launch {r d} (hv : p.validate = .ok ())
    (hn : c.state.warmPlan (ReferenceOptimizer.operations engine) p warm ≠ .error .fault) :
    (launch (ReferenceOptimizer.operations engine) p warm options).perform c = (r, d) →
    ((solve (ReferenceOptimizer.operations engine) p warm options).perform c).2.outside =
      match r with
      | .error _ => d.outside
      | .ok s => ((ReferenceOptimizer.solve engine).perform
          ⟨s.optimizer, d.outside, d.log⟩).2.outside := by
  intro h
  simp only [← outside_conclude (.ofMixedInteger p.isMixedInteger)]
  cases hw : c.state.warmPlan (ReferenceOptimizer.operations engine) p warm
  case ok x =>
    have ⟨snapshot, plan⟩ := x
    rw [perform_launch_of_warm hv hw] at h
    have ⟨_, hu⟩ := Action.perform_bind_of_startOn
      (conclude (ReferenceOptimizer.operations engine) (.ofMixedInteger p.isMixedInteger)) h
    rw [outside_solve_of_warm hv hw, warmUpdate, update, run_eq, ← bind_assoc, hu]
    cases r <;> rfl
  case error e =>
    cases e
    case fault => exact absurd hw hn
    case refused reason =>
      rw [perform_launch_of_cold hv hw] at h
      rw [outside_solve_of_cold hv hw]
      refine (perform_loadAndRun h).2.trans ?_
      cases r <;> rfl

end Outside
end Session
end ConicProgram
