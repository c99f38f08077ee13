import ConicProgram.Proofs.Session.Coherence

namespace ConicProgram

variable {α σ ω : Type} [Scalar α]

theorem Instance.keeps_coldLoad {τ δ : Type} {f : τ → δ} (opt : Optimizer α σ ω) (p : Problem α)
    (mode : ConeMode) : (coldLoad opt p mode : Action α τ ω _ _).Keeps f := by
  refine (Action.keeps_ofAttempt _).bind fun _ => (Action.keeps_ofAttempt _).bind fun linear => ?_
  exact (Action.keeps_startOn _ _).bind fun _ => Action.keeps_pure _

namespace Session

section Results

variable {ε : Type} {r : Attempt ε (SolveRecord α)}

-- An error that the caller is told, or a record that says that the optimizer has failed.
def Fails (r : Attempt ε (SolveRecord α)) : Prop :=
  (∃ cause, r = .error (.refused cause)) ∨ ∃ record, r = .ok record ∧ record.status = .failed

omit [Scalar α] in
theorem fails_refused (cause : ε) : Fails (.error (.refused cause) : Attempt ε (SolveRecord α)) :=
  .inl ⟨cause, rfl⟩

omit [Scalar α] in
theorem Fails.not_delivers (h : Fails r) : ¬Delivers r := by
  rcases h with ⟨cause, rfl⟩ | ⟨record, rfl, hs⟩
  · exact not_delivers_error
  · exact fun hd => delivers_ok_iff.mp hd hs

omit [Scalar α] in
theorem not_fails_fault : ¬Fails (.error .fault : Attempt ε (SolveRecord α)) := by
  rintro (⟨_, h⟩ | ⟨_, h, _⟩) <;> cases h

end Results

variable (opt : Optimizer α σ ω) (p : Problem α) (options : SolveOptions α)

-- A new instance of the problem, and the result of its first run.
def loadAndRun (settings : Settings) :
    Action α (Session α σ) ω (SolveError α) (SolveRecord α × Instance σ) := do
  let loaded ← Instance.coldLoad opt p settings.coneMode
  (run opt settings (.ofMixedInteger p.isMixedInteger) options).startOn loaded

section Warm

variable (c : Context α (Session α σ) ω) (snapshot : Snapshot α σ) (plan : Plan α)

-- The update of the instance in a snapshot that a warm start consists in, with what it makes of the
-- instance, of what lies outside and of the log.
def warmUpdate : Attempt (SolveError α) (SolveRecord α) × Context α (Instance σ) ω :=
  (update opt plan c.state.settings (.ofMixedInteger p.isMixedInteger) options).perform
    ⟨snapshot.held, c.outside, c.log ++ [.warmStart (c.state.name opt) plan.objective.length
      plan.matrix.length plan.rhs.length plan.kinds.length]⟩

-- The attempt to take the instance back from where the update has brought it.
def takeBack : Attempt (SolveError α) Unit × Context α (Instance σ) ω :=
  (Instance.call (plan.revert opt)).perform (warmUpdate opt p options c snapshot plan).2

end Warm

variable (warm : Bool) (c : Context α (Session α σ) ω)

-- The ends of a solve. An entry that is taken out for a warm start comes back in one form or the
-- other, unless it is dropped.
inductive Step : Attempt (SolveError α) (SolveRecord α) → Session α σ → Prop
  | invalid {cause} (hv : p.validate = .error cause) :
      Step (.error (.refused (.invalidProblem cause))) c.state
  | unloaded {reason r} (hv : p.validate = .ok ())
      (hw : c.state.warmPlan opt p warm = .error (.refused reason))
      (hr : ((loadAndRun opt p options c.state.settings).perform
        { c with log := c.log ++ [.coldStart (c.state.name opt) reason] }).1.map (·.1) = r)
      (hf : Fails r) :
      Step r c.state
  | loaded {reason record solved d} (hv : p.validate = .ok ())
      (hw : c.state.warmPlan opt p warm = .error (.refused reason))
      (hr : (loadAndRun opt p options c.state.settings).perform
          { c with log := c.log ++ [.coldStart (c.state.name opt) reason] } =
        (.ok (record, solved), d))
      (hs : record.status ≠ .failed) :
      Step (.ok record)
        { c.state with cache := c.state.cache.store opt (c.state.name opt) solved p }
  | updated {snapshot plan record} (hv : p.validate = .ok ())
      (hw : c.state.warmPlan opt p warm = .ok (snapshot, plan))
      (hr : (warmUpdate opt p options c snapshot plan).1 = .ok record)
      (hs : record.status ≠ .failed) :
      Step (.ok record) { c.state with
        cache := (c.state.cache.erase (c.state.name opt)).store opt (c.state.name opt)
          (warmUpdate opt p options c snapshot plan).2.state p }
  | restored {snapshot plan r} (hv : p.validate = .ok ())
      (hw : c.state.warmPlan opt p warm = .ok (snapshot, plan))
      (hr : (warmUpdate opt p options c snapshot plan).1 = r) (hf : Fails r)
      (hb : (takeBack opt p options c snapshot plan).1 = .ok ()) :
      Step r { c.state with
        cache := (c.state.cache.erase (c.state.name opt)).restore (c.state.name opt)
          { snapshot with held := (takeBack opt p options c snapshot plan).2.state } }
  | dropped {snapshot plan r cause} (hv : p.validate = .ok ())
      (hw : c.state.warmPlan opt p warm = .ok (snapshot, plan))
      (hr : (warmUpdate opt p options c snapshot plan).1 = r) (hf : Fails r)
      (hb : (takeBack opt p options c snapshot plan).1 = .error (.refused cause)) :
      Step r { c.state with cache := c.state.cache.erase (c.state.name opt) }
  | faulted (hv : p.validate = .ok ()) (hf : c.state.warmPlan opt p warm = .error .fault ∨
        ∃ reason, c.state.warmPlan opt p warm = .error (.refused reason) ∧
          ((loadAndRun opt p options c.state.settings).perform
            { c with log := c.log ++ [.coldStart (c.state.name opt) reason] }).1 = .error .fault) :
      Step (.error .fault) c.state
  | lost {snapshot plan} (hv : p.validate = .ok ())
      (hw : c.state.warmPlan opt p warm = .ok (snapshot, plan))
      (hf : (warmUpdate opt p options c snapshot plan).1 = .error .fault ∨
        (takeBack opt p options c snapshot plan).1 = .error .fault) :
      Step (.error .fault) { c.state with cache := c.state.cache.erase (c.state.name opt) }

section Cold

variable {opt p options warm c}

theorem perform_solveCold {name : String} {r d} :
    (loadAndRun opt p options c.state.settings).perform c = (r, d) →
    (solveCold opt name p (.ofMixedInteger p.isMixedInteger) options).perform c = match r with
      | .error e => (.error e, d)
      | .ok (record, solved) => (.ok record, if record.status = .failed then d else
        { d with state := { d.state with cache := d.state.cache.store opt name solved p } }) := by
  intro h
  have hb : solveCold opt name p (.ofMixedInteger p.isMixedInteger) options =
      Action.state >>= fun s => loadAndRun opt p options s.settings >>= fun x => do
        unless x.1.status = .failed do
          updateCache (·.store opt name x.2 p)
        return x.1 := by
    simp only [solveCold, loadAndRun, bind_assoc]
  rw [hb, Action.perform_bind_of_ok Action.perform_state]
  rcases r with e | ⟨record, solved⟩
  case error => exact Action.perform_bind_of_error h
  case ok =>
    rw [Action.perform_bind_of_ok h]
    dsimp only
    split
    case isTrue => rfl
    case isFalse => rfl

theorem step_solve_of_cold {reason : Ineligible} (hv : p.validate = .ok ())
    (hw : c.state.warmPlan opt p warm = .error (.refused reason)) :
    Step opt p options warm c ((solve opt p warm options).perform c).1
      ((solve opt p warm options).perform c).2.state := by
  have hk : (loadAndRun opt p options c.state.settings).Keeps id :=
    (Instance.keeps_coldLoad opt p _).bind fun _ => Action.keeps_startOn _ _
  have hk := hk { c with log := c.log ++ [.coldStart (c.state.name opt) reason] }
  rw [perform_solve_of_cold hv hw]
  cases hr : (loadAndRun opt p options c.state.settings).perform
    { c with log := c.log ++ [.coldStart (c.state.name opt) reason] }
  case mk r d =>
    rw [hr] at hk
    have hd : d.state = c.state := hk
    rw [perform_solveCold hr]
    rcases r with (_ | cause) | ⟨record, solved⟩
    case error.fault =>
      rw [hd]
      exact .faulted hv (.inr ⟨reason, hw, congrArg Prod.fst hr⟩)
    case error.refused =>
      rw [hd]
      exact .unloaded hv hw (by rw [hr]; rfl) (fails_refused cause)
    case ok =>
      dsimp only
      split
      case isTrue hs =>
        rw [hd]
        exact .unloaded hv hw (by rw [hr]; rfl) (.inr ⟨record, rfl, hs⟩)
      case isFalse hs =>
        dsimp only
        rw [hd]
        exact .loaded hv hw hr hs

end Cold

section Warm

variable {opt p options warm c} {snapshot : Snapshot α σ} {plan : Plan α}

omit [Scalar α] in
theorem perform_rollBack (name : String) (snapshot : Snapshot α σ) (changed : Instance σ) {r d} :
    (Instance.call (plan.revert opt)).perform { c with state := changed } = (r, d) →
    (rollBack opt name snapshot plan changed).perform c = match r with
      | .ok () => (.ok (), { d with state := { c.state with
          cache := c.state.cache.restore name { snapshot with held := d.state } } })
      | .error (.refused cause) =>
        (.ok (), { d with state := c.state, log := d.log ++ [.dropped name cause] })
      | .error .fault => (.error .fault, { d with state := c.state }) := by
  intro h
  rw [rollBack, Action.perform_bind_of_ok (Action.perform_runOn ..)]
  dsimp only
  rw [h]
  rcases r with (_ | cause) | _ <;> rfl

omit [Scalar α] in
-- What follows on the update that a warm start makes.
theorem perform_solveWarm {r d} : warmUpdate opt p options c snapshot plan = (r, d) →
    (solveWarm opt (c.state.name opt) snapshot p plan (.ofMixedInteger p.isMixedInteger)
      options).perform c = Action.perform (match r with
        | .error .fault => Action.ofAttempt .fault
        | .error (.refused cause) => do
          rollBack opt (c.state.name opt) snapshot plan d.state
          Action.refuse cause
        | .ok record => do
          if record.status = .failed then
            rollBack opt (c.state.name opt) snapshot plan d.state
          else
            updateCache (·.store opt (c.state.name opt) d.state p)
          return record) { d with
            state := { c.state with cache := c.state.cache.erase (c.state.name opt) } } := by
  intro h
  unfold warmUpdate at h
  rw [solveWarm, Action.perform_bind_of_ok Action.perform_state]
  dsimp only
  rw [updateCache, Action.perform_bind_of_ok (Action.perform_modifyState _),
    Action.perform_bind_of_ok (Action.perform_record _),
    Action.perform_bind_of_ok (Action.perform_runOn ..)]
  dsimp only
  rw [h]
  rcases r with (_ | cause) | _ <;> rfl

-- A failed update ends in one of the three ways in which the instance is taken back.
theorem step_of_fails {r d b e} (hv : p.validate = .ok ())
    (hw : c.state.warmPlan opt p warm = .ok (snapshot, plan))
    (h : warmUpdate opt p options c snapshot plan = (r, d)) (hr : Fails r) :
    (Instance.call (plan.revert opt)).perform d = (b, e) →
    Step opt p options warm c (match b with | .error .fault => .error .fault | _ => r)
      (match b with
        | .ok () => { c.state with
            cache := (c.state.cache.erase (c.state.name opt)).restore (c.state.name opt)
              { snapshot with held := e.state } }
        | _ => { c.state with cache := c.state.cache.erase (c.state.name opt) }) := by
  intro hb
  have ht : takeBack opt p options c snapshot plan = (b, e) := by rw [takeBack, h, hb]
  rcases b with (_ | cause) | _
  case error.fault => exact .lost hv hw (.inr (congrArg Prod.fst ht))
  case error.refused =>
    exact .dropped hv hw (congrArg Prod.fst h) hr (congrArg Prod.fst ht)
  case ok =>
    have hs := Step.restored hv hw (congrArg Prod.fst h) hr (congrArg Prod.fst ht)
    rw [ht] at hs
    exact hs

theorem step_solve_of_warm (hv : p.validate = .ok ())
    (hw : c.state.warmPlan opt p warm = .ok (snapshot, plan)) :
    Step opt p options warm c ((solve opt p warm options).perform c).1
      ((solve opt p warm options).perform c).2.state := by
  cases h : warmUpdate opt p options c snapshot plan
  case mk r d =>
  rw [perform_solve_of_warm hv hw, perform_solveWarm h]
  cases hb : (Instance.call (plan.revert opt)).perform d
  case mk b e =>
  have hback := perform_rollBack (c := { d with
    state := { c.state with cache := c.state.cache.erase (c.state.name opt) } })
    (c.state.name opt) snapshot d.state hb
  rcases r with (_ | cause) | record
  case error.fault => exact .lost hv hw (.inl (congrArg Prod.fst h))
  case error.refused =>
    have hs := step_of_fails hv hw h (fails_refused cause) hb
    dsimp only [id]
    rw [Action.perform_bind, hback]
    rcases b with (_ | _) | _ <;> exact hs
  case ok =>
    dsimp only [id]
    split
    case isTrue hf =>
      have hs := step_of_fails hv hw h (.inr ⟨record, rfl, hf⟩) hb
      rw [Action.perform_bind, hback]
      rcases b with (_ | _) | _ <;> exact hs
    case isFalse hf =>
      have hs := Step.updated hv hw (congrArg Prod.fst h) hf
      rw [h] at hs
      exact hs

end Warm

theorem step_solve : Step opt p options warm c ((solve opt p warm options).perform c).1
    ((solve opt p warm options).perform c).2.state := by
  cases hv : p.validate
  case error cause =>
    rw [perform_solve_of_invalid hv]
    exact .invalid hv
  case ok =>
    cases hw : c.state.warmPlan opt p warm
    case ok x => exact step_solve_of_warm hv hw
    case error e =>
      cases e
      case fault =>
        rw [perform_solve_of_fault hv hw]
        exact .faulted hv (.inl hw)
      case refused reason => exact step_solve_of_cold hv hw

section Results

variable {opt p options warm c} {r : Attempt (SolveError α) (SolveRecord α)} {s : Session α σ}
  (h : Step opt p options warm c r s) (hv : p.validate = .ok ())
include h hv

theorem Step.eq_fault (hw : c.state.warmPlan opt p warm = .error .fault) : r = .error .fault := by
  cases h with
  | invalid hn => cases hv.symm.trans hn
  | unloaded _ hn | loaded _ hn | updated _ hn | restored _ hn | dropped _ hn =>
    cases hw.symm.trans hn
  | faulted | lost => rfl

-- What comes out of the update of a warm start comes out of the solve.
theorem Step.eq_warmUpdate {snapshot : Snapshot α σ} {plan : Plan α}
    (hw : c.state.warmPlan opt p warm = .ok (snapshot, plan))
    (hb : (takeBack opt p options c snapshot plan).1 ≠ .error .fault) :
    r = (warmUpdate opt p options c snapshot plan).1 := by
  cases h with
  | invalid hn => cases hv.symm.trans hn
  | unloaded _ hn | loaded _ hn => cases hw.symm.trans hn
  | faulted _ hf => rcases hf with hn | ⟨_, hn, _⟩ <;> cases hw.symm.trans hn
  | updated _ hn hr | restored _ hn hr | dropped _ hn hr =>
    cases hw.symm.trans hn
    exact hr.symm
  | lost _ hn hf =>
    cases hw.symm.trans hn
    exact (hf.resolve_right hb).symm

theorem Step.eq_loadAndRun {reason : Ineligible}
    (hw : c.state.warmPlan opt p warm = .error (.refused reason)) :
    r = ((loadAndRun opt p options c.state.settings).perform
      { c with log := c.log ++ [.coldStart (c.state.name opt) reason] }).1.map (·.1) := by
  cases h with
  | invalid hn => cases hv.symm.trans hn
  | updated _ hn | restored _ hn | dropped _ hn | lost _ hn => cases hw.symm.trans hn
  | unloaded _ hn hr =>
    cases hw.symm.trans hn
    exact hr.symm
  | loaded _ hn hr =>
    cases hw.symm.trans hn
    rw [hr]
    rfl
  | faulted _ hf =>
    rcases hf with hn | ⟨_, hn, hr⟩ <;> cases hw.symm.trans hn
    rw [hr]
    rfl

end Results
end Session
end ConicProgram
