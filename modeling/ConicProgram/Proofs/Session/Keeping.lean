import ConicProgram.Proofs.Session.Requests

namespace ConicProgram

variable {α : Type} [Scalar α]

namespace Snapshot

variable {σ : Type}

-- The snapshots differ in nothing but the state of their instances.
structure SameData (s t : Snapshot α σ) : Prop where
  objective : s.objective = t.objective
  matrix    : s.matrix = t.matrix
  rhs       : s.rhs = t.rhs
  partition : s.partition = t.partition
  kinds     : s.kinds = t.kinds
  version   : s.version = t.version

omit [Scalar α] in
theorem SameData.refl (s : Snapshot α σ) : s.SameData s :=
  ⟨rfl, rfl, rfl, rfl, rfl, rfl⟩

structure HasData (s : Snapshot α σ) (p : Problem α) : Prop where
  objective : s.objective = p.objective
  matrix    : s.matrix = p.matrix
  rhs       : s.rhs = p.rhs
  partition : s.partition = p.partition

structure Numbers (s : Snapshot α σ) : Prop where
  objective : ∀ x ∈ s.objective, Scalar.IsNumber x
  matrix    : ∀ x ∈ s.matrix.values, Scalar.IsNumber x
  rhs       : ∀ x ∈ s.rhs, Scalar.IsNumber x

end Snapshot

namespace Session

section Any

variable {σ ω : Type}

-- Nothing has changed but, if at all, the instance under the name, which is missing if it has been
-- dropped.
structure Keeps (s t : Session α σ) (name : String) (dropped : Prop) : Prop where
  settings : t.settings = s.settings
  version  : t.cache.version = s.cache.version
  others   : ∀ k, k ≠ name → t.cache.get? k = s.cache.get? k
  entry    : ¬dropped → Option.Rel Snapshot.SameData (t.cache.get? name) (s.cache.get? name)
  missing  : dropped → t.cache.get? name = none

-- There is a new entry of the problem under the name, and nothing else has changed.
structure Replaces (s t : Session α σ) (name : String) (p : Problem α) : Prop where
  settings : t.settings = s.settings
  version  : t.cache.version = s.cache.version + 1
  others   : ∀ k, k ≠ name → t.cache.get? k = s.cache.get? k
  entry    : ∃ snapshot, t.cache.get? name = some snapshot ∧ snapshot.HasData p ∧
    snapshot.version = s.cache.version + 1

variable {opt : Optimizer α σ ω} {p : Problem α} {options : SolveOptions α} {warm : Bool}
  {c : Context α (Session α σ) ω} {r : Attempt (SolveError α) (SolveRecord α)} {s : Session α σ}

-- There is an update that the optimizer refuses to take back.
def Drops (opt : Optimizer α σ ω) (p : Problem α) (options : SolveOptions α) (warm : Bool)
    (c : Context α (Session α σ) ω) : Prop :=
  ∃ snapshot plan cause, p.validate = .ok () ∧
    c.state.warmPlan opt p warm = .ok (snapshot, plan) ∧
    (takeBack opt p options c snapshot plan).1 = .error (.refused cause)

omit [Scalar α] in
theorem rel_sameData_refl (s : Option (Snapshot α σ)) : Option.Rel Snapshot.SameData s s := by
  cases s
  case none => exact .none
  case some s => exact .some (.refl s)

omit [Scalar α] in
theorem replaces_store (s : Session α σ) (opt : Optimizer α σ ω) (name : String)
    (held : Instance σ) (p : Problem α) :
    s.Replaces { s with cache := s.cache.store opt name held p } name p where
  settings := rfl
  version := rfl
  others k hk := by rw [Cache.get?_store, if_neg hk]
  entry := ⟨_, by rw [Cache.get?_store, if_pos rfl], ⟨rfl, rfl, rfl, rfl⟩, rfl⟩

omit [Scalar α] in
-- The old entry may have been taken out before.
theorem Replaces.of_erase {t : Session α σ} {name : String}
    (h : Replaces { s with cache := s.cache.erase name } t name p) : s.Replaces t name p where
  settings := h.settings
  version := h.version
  others k hk := (h.others k hk).trans (by rw [Cache.get?_erase, if_neg hk])
  entry := h.entry

theorem Step.keeps (h : Step opt p options warm c r s) (hf : Fails r) :
    c.state.Keeps s (c.state.name opt) (Drops opt p options warm c) := by
  cases h with
  | invalid hn =>
    refine ⟨rfl, rfl, fun _ _ => rfl, fun _ => rel_sameData_refl _, ?_⟩
    intro ⟨_, _, _, hv, _⟩
    cases hv.symm.trans hn
  | unloaded _ hn =>
    refine ⟨rfl, rfl, fun _ _ => rfl, fun _ => rel_sameData_refl _, ?_⟩
    intro ⟨_, _, _, _, hw, _⟩
    cases hw.symm.trans hn
  | loaded _ _ _ hs | updated _ _ _ hs =>
    exact absurd (delivers_ok_iff.mpr hs) hf.not_delivers
  | faulted | lost => exact absurd hf not_fails_fault
  | restored hv hw _ _ hb =>
    have ⟨_, hs, _⟩ := warmPlan_eq_ok_iff.mp hw
    refine ⟨rfl, rfl, fun k hk => ?_, fun _ => ?_, ?_⟩
    · rw [Cache.get?_restore, if_neg hk, Cache.get?_erase, if_neg hk]
    · rw [Cache.get?_restore, if_pos rfl, hs]
      exact .some ⟨rfl, rfl, rfl, rfl, rfl, rfl⟩
    · intro ⟨_, _, _, _, hp, ht⟩
      cases hw.symm.trans hp
      cases hb.symm.trans ht
  | dropped hv hw _ _ hb =>
    refine ⟨rfl, rfl, fun k hk => ?_, fun hn => ?_, fun _ => ?_⟩
    · rw [Cache.get?_erase, if_neg hk]
    · exact absurd ⟨_, _, _, hv, hw, hb⟩ hn
    · rw [Cache.get?_erase, if_pos rfl]

theorem Step.replaces (h : Step opt p options warm c r s) (hd : Delivers r) :
    c.state.Replaces s (c.state.name opt) p := by
  cases h with
  | unloaded _ _ _ hf | restored _ _ _ hf | dropped _ _ _ hf => exact absurd hd hf.not_delivers
  | invalid | faulted | lost => exact absurd hd not_delivers_error
  | loaded => exact replaces_store ..
  | updated => exact (replaces_store ..).of_erase

end Any

section Reference

variable {ω : Type} {engine : Engine α ω} {p q : Problem α} {mode : ConeMode}
  {s : Snapshot α (ReferenceOptimizer α)}

-- A coherent snapshot describes a problem if it outlines one.
theorem exists_describes (o : ω) (h : s.Outlines q mode) (hi : q.Indexable)
    (hc : s.Coherent engine mode) (hn : s.Numbers) :
    ∃ p : Problem α, p.Admissible ∧ s.Describes p mode := by
  obtain ⟨p, cold, m, n, ⟨ho, hm, hr, hd⟩, hy, hsm, hcn, ha⟩ := hc.model
  have hp : p.Admissible := by
    refine ⟨Problem.validate_of_yields o hy, ?_, ?_⟩
    · have hw := h.matrix ▸ hm
      exact ⟨by rw [Problem.rowCount, hw]; exact hi.rows,
        by rw [Problem.variableCount, hw]; exact hi.columns⟩
    · exact ⟨ho ▸ hn.objective, hm ▸ hn.matrix, hr ▸ hn.rhs⟩
  have hl := (hy.unique o (hp.valid.yields_coldLoad engine mode hp.validated hp.indexable ())).1
  rw [hl] at hcn
  cases hcn
  have hs : p.Similar q := by
    refine ⟨?_, hd.trans h.partition⟩
    rw [Problem.variableCount, Problem.variableCount, hm, h.matrix]
  obtain ⟨m', hm', _, _, hsc⟩ := h.held.model
  cases hsm.symm.trans hm'
  refine ⟨p, hp, ⟨?_, m, hsm, ha, hsc⟩, ho.symm, hm.symm, hr.symm, hd.symm, h.kinds⟩
  rw [hs.loadedInstance]
  exact h.held.layout

variable [Numeric α] (engine) (options : SolveOptions α) {warm : Bool} {plan : Plan α}
  (c : Context α (Session α (ReferenceOptimizer α)) ω)

-- The model that is taken back is the one that the update began with, in every number.
theorem agrees_takeBack (h : s.Describes q mode) (hq : q.Admissible) (hp : p.Valid)
    (hplan : s.plan p = .ok plan) :
    ∃ m n, s.held.optimizer.model = some m ∧
      (takeBack (ReferenceOptimizer.operations engine) p options c s
        plan).2.state.optimizer.model = some n ∧ n.Agrees m := by
  have hs := Snapshot.similar_of_checkShape h.outlines hq.valid
    (Snapshot.planned_of_plan hplan).shape
  have hv := Snapshot.valid_target hs h.outlines hq.valid hp
  have ⟨m, hm, _, _, hback⟩ := frames_takeBack engine options c h.outlines hq.valid hp hplan
  have ⟨m', hm', ha, _⟩ := h.held.model
  cases hm.symm.trans hm'
  refine ⟨m, _, hm, hback, Model.Agrees.trans ?_ ha.symm⟩
  exact (h.between hq.valid hp hq.numbers hplan).agrees_back hq.valid hv
    (Snapshot.target_similar hs h.outlines) hq.numbers ha

variable {engine options c}

-- What is left of the instance of an entry after a solve that has failed.
theorem Step.agrees_of_fails {r t}
    (h : Step (ReferenceOptimizer.operations engine) p options warm c r t) (hf : Fails r)
    (hs : c.state.cache.get? (c.state.name (ReferenceOptimizer.operations engine)) = some s)
    (hd : s.Describes q mode) (hq : q.Admissible) :
    ∃ back m n, t.cache.get? (c.state.name (ReferenceOptimizer.operations engine)) = some back ∧
      back.SameData s ∧ s.held.optimizer.model = some m ∧ back.held.optimizer.model = some n ∧
      n.Agrees m := by
  cases h with
  | invalid | unloaded =>
    have ⟨m, hm, ha, _⟩ := hd.held.model
    exact ⟨s, m, m, hs, .refl s, hm, hm, ha.trans ha.symm⟩
  | loaded _ _ _ hs | updated _ _ _ hs =>
    exact absurd (delivers_ok_iff.mpr hs) hf.not_delivers
  | faulted | lost => exact absurd hf not_fails_fault
  | restored hv hw =>
    have ⟨_, hs', hplan⟩ := warmPlan_eq_ok_iff.mp hw
    cases hs.symm.trans hs'
    have ⟨m, n, hm, hn, ha⟩ := agrees_takeBack engine options c hd hq
      (Problem.valid_of_validate hv) hplan
    refine ⟨_, m, n, (Cache.get?_restore ..).trans (if_pos rfl), ?_, hm, hn, ha⟩
    exact ⟨rfl, rfl, rfl, rfl, rfl, rfl⟩
  | dropped hv hw _ _ hb =>
    have ⟨_, hs', hplan⟩ := warmPlan_eq_ok_iff.mp hw
    cases hs.symm.trans hs'
    have ⟨_, _, ht, _⟩ := frames_takeBack engine options c hd.outlines hq.valid
      (Problem.valid_of_validate hv) hplan
    cases hb.symm.trans ht

end Reference

-- With any optimizer a solve that fails changes nothing of the cache but, if its warm start cannot
-- be taken back, the entry of the session, which is missing then; one that delivers a result
-- replaces that entry. The reference optimizer takes every warm start back, and has the numbers of
-- a coherent entry again then.
theorem solve_keeps_cache [Numeric α] (p : Problem α) (options : SolveOptions α) (warm : Bool) :
    (∀ {σ ω : Type} (opt : Optimizer α σ ω) (c : Context α (Session α σ) ω),
      (Fails ((solve opt p warm options).perform c).1 →
        c.state.Keeps ((solve opt p warm options).perform c).2.state (c.state.name opt)
          (Drops opt p options warm c)) ∧
      (Delivers ((solve opt p warm options).perform c).1 →
        c.state.Replaces ((solve opt p warm options).perform c).2.state (c.state.name opt) p)) ∧
    ∀ {ω : Type} (engine : Engine α ω) (c : Context α (Session α (ReferenceOptimizer α)) ω)
      (s : Snapshot α (ReferenceOptimizer α)), Reached engine c →
      c.state.cache.get? (c.state.name (ReferenceOptimizer.operations engine)) = some s →
      s.Coherent engine s.held.mode → s.Numbers →
      (∀ t plan, p.validate = .ok () →
        c.state.warmPlan (ReferenceOptimizer.operations engine) p warm = .ok (t, plan) →
        (takeBack (ReferenceOptimizer.operations engine) p options c t plan).1 = .ok ()) ∧
      (Fails ((solve (ReferenceOptimizer.operations engine) p warm options).perform c).1 →
        ∃ back m n, ((solve (ReferenceOptimizer.operations engine) p warm
            options).perform c).2.state.cache.get?
              (c.state.name (ReferenceOptimizer.operations engine)) = some back ∧
          back.SameData s ∧ s.held.optimizer.model = some m ∧
          back.held.optimizer.model = some n ∧ n.Agrees m) := by
  refine ⟨fun opt c => ?_, fun engine c s hc hs hcoh hn => ?_⟩
  · have hstep := step_solve opt p options warm c
    exact ⟨hstep.keeps, hstep.replaces⟩
  · have ⟨q, mode, hv, hi, ho⟩ := hc.outlined _ _ hs
    have hmode : s.held.mode = mode := congrArg Instance.mode ho.held.layout
    have ⟨p', hp', hd⟩ := exists_describes c.outside ho hi (hmode ▸ hcoh) hn
    refine ⟨fun t plan hpv hw => takeBack_eq_ok hc.outlined hpv hw, fun hf => ?_⟩
    exact (step_solve _ p options warm c).agrees_of_fails hf hs hd hp'

section Refused

-- A warm start with another slope. One of its options is unknown to the optimizer.
def refusedCall : Call Float where
  problem := { Problem.disc (0, 1) 1 with parameters := ⟨true, false⟩ }
  warm    := true
  options := ({} : SolveOptions Float).withControl "tolerance" (.flag true)

theorem perform_run_refusedCall (kind : ProblemKind)
    (c : Context Float (Instance (ReferenceOptimizer Float)) Unit) :
    ((run (ReferenceOptimizer.operations refuting) {} kind refusedCall.options).perform c).1 =
      .error (.refused (.rejected (.unknownControl "tolerance"))) := by
  have ho (d : Context Float (ReferenceOptimizer Float) Unit) :
      ∃ e, (applyOptions (ReferenceOptimizer.operations refuting) {}
        refusedCall.options).perform d = (.error (.refused (.unknownControl "tolerance")), e) :=
    ⟨_, rfl⟩
  have ⟨e, ho⟩ := ho { c with state := c.state.optimizer }
  have hc : (Instance.call (applyOptions (ReferenceOptimizer.operations refuting) {}
      refusedCall.options)).perform c =
      (.error (.refused (.rejected (.unknownControl "tolerance"))),
        { e with state := { c.state with optimizer := e.state } }) := by
    rw [Instance.call, Action.perform_within, Action.perform_mapCause, ho]
    rfl
  rw [run, Action.perform_bind_of_error hc]

theorem plan_refusedCall {t : Snapshot Float (ReferenceOptimizer Float)}
    (ht : t.Describes firstCall.problem .auxiliary) :
    t.plan refusedCall.problem = .ok { objective := [⟨0, 1, 0⟩] } := by
  have hk : t.kinds = (firstCall.problem.loaded .auxiliary).columns.map (·.kind) := by
    rw [ht.kinds, ht.held.frames.kinds]
  rw [Snapshot.plan, Snapshot.checkShape, ht.objective, ht.partition, ht.rhs, hk]
  rfl

theorem perform_warmUpdate_refusedCall {t : Snapshot Float (ReferenceOptimizer Float)}
    {plan : Plan Float} {c : Context Float (Session Float (ReferenceOptimizer Float)) Unit}
    (ht : t.Describes firstCall.problem .auxiliary)
    (hplan : t.plan refusedCall.problem = .ok plan) (hc : c.state.settings = {}) :
    (warmUpdate (ReferenceOptimizer.operations refuting) refusedCall.problem refusedCall.options c
      t plan).1 = .error (.refused (.rejected (.unknownControl "tolerance"))) := by
  have hq : refusedCall.problem.Admissible :=
    (Problem.admissible_disc Numeric.zero_isNumber Numeric.one_isNumber
      Numeric.one_isNumber).of_validate rfl rfl rfl rfl
  have ⟨held, hy, _⟩ := ht.yields_apply admissible_firstCall hq hplan refuting
  have ⟨_, hy⟩ := hy c.outside (c.log ++ [.warmStart
    (c.state.name (ReferenceOptimizer.operations refuting)) plan.objective.length
    plan.matrix.length plan.rhs.length plan.kinds.length])
  rw [warmUpdate, update, Action.perform_bind_of_ok hy, hc, perform_run_refusedCall]

def afterFirstCall : Context Float (Session Float (ReferenceOptimizer Float)) Unit :=
  serve (ReferenceOptimizer.operations refuting) ⟨{ settings := {} }, (), []⟩ [.solve firstCall]

theorem reached_afterFirstCall : Reached refuting afterFirstCall := by
  refine ⟨{}, (), [], [.solve firstCall], fun request hr => ?_, rfl⟩
  cases List.mem_singleton.mp hr
  exact admissible_firstCall.indexable

theorem exists_afterFirstCall : ∃ held, held.Holds firstCall.problem .auxiliary ∧
    afterFirstCall.state = ⟨{}, .store {} (ReferenceOptimizer.operations refuting) "CLARABEL" held
      firstCall.problem⟩ := by
  have ⟨held, hh, hy⟩ := yields_firstCall
  have ⟨log, hy⟩ := hy () []
  refine ⟨held, hh, ?_⟩
  rw [afterFirstCall, serve, List.foldl_cons, List.foldl_nil, Request.perform_solve, hy]

-- The slope has been changed by the time the call is refused, and is changed back.
theorem solve_keeps_cache_refusedCall :
    ∃ s back m n,
      ((refusedCall.run (ReferenceOptimizer.operations refuting)).perform afterFirstCall).1 =
        .error (.refused (.rejected (.unknownControl "tolerance"))) ∧
      ((refusedCall.run (ReferenceOptimizer.operations refuting)).perform
        afterFirstCall).2.state.cache.version = afterFirstCall.state.cache.version ∧
      afterFirstCall.state.cache.get? "CLARABEL" = some s ∧
      ((refusedCall.run (ReferenceOptimizer.operations refuting)).perform
        afterFirstCall).2.state.cache.get? "CLARABEL" = some back ∧
      back.SameData s ∧ s.held.optimizer.model = some m ∧ back.held.optimizer.model = some n ∧
      n.Agrees m := by
  have hreached := reached_afterFirstCall
  have ⟨held, hh, hc⟩ := exists_afterFirstCall
  generalize afterFirstCall = c at hreached hc ⊢
  have hname : c.state.name (ReferenceOptimizer.operations refuting) = "CLARABEL" := by
    rw [hc]
    rfl
  have ⟨s, hget, hd⟩ := Cache.describes_store refuting {} "CLARABEL" hh
  have hs : c.state.cache.get? "CLARABEL" = some s := by rw [hc, hget]
  have hp := admissible_firstCall
  have hplan := plan_refusedCall hd
  have hw : c.state.warmPlan (ReferenceOptimizer.operations refuting) refusedCall.problem true =
      .ok (s, _) := warmPlan_eq_ok_iff.mpr ⟨rfl, by rw [hname, hs], hplan⟩
  have hn : s.Numbers := by
    refine ⟨?_, ?_, ?_⟩
    · exact hd.objective ▸ hp.numbers.objective
    · exact hd.matrix ▸ hp.numbers.matrix
    · exact hd.rhs ▸ hp.numbers.rhs
  have hmode : s.held.mode = .auxiliary := congrArg Instance.mode hd.held.layout
  have ⟨hany, href⟩ := solve_keeps_cache refusedCall.problem refusedCall.options true
  have ⟨hback, hagrees⟩ := href refuting c s hreached (by rw [hname, hs])
    (hmode ▸ hd.coherent hp refuting) hn
  have hr := ((step_solve (ReferenceOptimizer.operations refuting) refusedCall.problem
    refusedCall.options true c).eq_warmUpdate rfl hw (by rw [hback _ _ rfl hw]; nofun)).trans
      (perform_warmUpdate_refusedCall hd hplan (by rw [hc]))
  have hf : Fails ((refusedCall.run (ReferenceOptimizer.operations refuting)).perform c).1 :=
    hr ▸ fails_refused _
  have ⟨back, m, n, hb, hsame, hm, hbm, ha⟩ := hagrees hf
  rw [hname] at hb
  exact ⟨s, back, m, n, hr, ((hany _ _).1 hf).version, hs, hb, hsame, hm, hbm, ha⟩

end Refused
end Session
end ConicProgram
