import ConicProgram.Proofs.Loading.Validation
import ConicProgram.Proofs.Session.Steps

namespace ConicProgram

variable {α : Type} [Scalar α]

namespace Session

section Requests

variable {σ ω : Type}

inductive Request (α : Type) where
  | solve (call : Call α)
  | store (name : String) (p : Problem α) (mode : ConeMode)
  | invalidate (name : String)
  | clear

-- An instance is stored with the problem that it has been loaded with.
def Request.run (opt : Optimizer α σ ω) :
    Request α → Action α (Session α σ) ω (SolveError α) Unit
  | solve call => do
    let _ ← call.run opt
  | store name p mode => do
    let loaded ← Instance.coldLoad opt p mode
    updateCache (·.store opt name loaded p)
  | invalidate name => updateCache (·.erase name)
  | clear => updateCache Cache.clear

theorem Request.perform_solve (opt : Optimizer α σ ω) (call : Call α)
    (c : Context α (Session α σ) ω) :
    (((Request.solve call).run opt).perform c).2 = ((call.run opt).perform c).2 := by
  rw [Request.run, Action.perform_bind]
  cases (call.run opt).perform c
  case mk r d => cases r <;> rfl

-- The requests are made one after the other, whether they succeed or not.
def serve (opt : Optimizer α σ ω) (c : Context α (Session α σ) ω) (requests : List (Request α)) :
    Context α (Session α σ) ω :=
  requests.foldl (fun c request => ((request.run opt).perform c).2) c

-- What is kept by each request is kept by all of them.
theorem serve_keeps {opt : Optimizer α σ ω} {requests : List (Request α)}
    {P : Context α (Session α σ) ω → Prop}
    (h : ∀ c, ∀ request ∈ requests, P c → P ((request.run opt).perform c).2)
    {c : Context α (Session α σ) ω} (hc : P c) : P (serve opt c requests) := by
  induction requests generalizing c
  case nil => exact hc
  case cons request requests hr =>
    refine hr (fun c r hm => h c r (List.mem_cons_of_mem _ hm)) ?_
    exact h c request (List.mem_cons_self ..) hc

omit [Scalar α] in
-- The indices of the problems in a request are machine words.
def Request.Indexable : Request α → Prop
  | solve call => call.problem.Indexable
  | store _ p _ => p.Indexable
  | invalidate _ | clear => True

end Requests
end Session

-- Each entry is that of a problem that can be loaded.
def Cache.Outlined (c : Cache α (ReferenceOptimizer α)) : Prop :=
  ∀ name snapshot, c.get? name = some snapshot →
    ∃ (p : Problem α) (mode : ConeMode), p.validate = .ok () ∧ p.Indexable ∧
      snapshot.Outlines p mode

namespace Cache.Outlined

variable {ω : Type} {c : Cache α (ReferenceOptimizer α)} (h : c.Outlined) (name : String)

theorem empty : Cache.Outlined ({} : Cache α (ReferenceOptimizer α)) :=
  Cache.forall_empty

include h

theorem erase : (c.erase name).Outlined :=
  Cache.forall_erase h name

theorem restore {p : Problem α} {mode : ConeMode} {s : Snapshot α (ReferenceOptimizer α)}
    (hp : p.validate = .ok ()) (hi : p.Indexable) (hs : s.Outlines p mode) :
    (c.restore name s).Outlined :=
  Cache.forall_restore h name ⟨p, mode, hp, hi, hs⟩

theorem store {p : Problem α} {mode : ConeMode} {held : Instance (ReferenceOptimizer α)}
    (hp : p.validate = .ok ()) (hi : p.Indexable) (hh : held.Frames p mode) (engine : Engine α ω) :
    (c.store (ReferenceOptimizer.operations engine) name held p).Outlined :=
  Cache.forall_store h name ⟨p, mode, hp, hi, hh, rfl, rfl, rfl, rfl, rfl⟩

end Cache.Outlined

namespace Session

variable {ω : Type} (engine : Engine α ω) {p q : Problem α} {mode : ConeMode}
  (options : SolveOptions α) {warm : Bool} (c : Context α (Session α (ReferenceOptimizer α)) ω)

-- However the first run of a new instance ends, it frames the problem then.
theorem frames_of_loadAndRun {settings : Settings} {record : SolveRecord α}
    {solved : Instance (ReferenceOptimizer α)} {d} (hv : p.validate = .ok ()) (hi : p.Indexable)
    (hr : (loadAndRun (ReferenceOptimizer.operations engine) p options settings).perform c =
      (.ok (record, solved), d)) : solved.Frames p settings.coneMode := by
  have hp := Problem.valid_of_validate hv
  have hk := keeps_run engine settings options (.ofMixedInteger p.isMixedInteger)
  have he : (loadAndRun (ReferenceOptimizer.operations engine) p options settings).Ensures
      c.state fun r s => s = c.state ∧ ∀ record solved, r = .ok (record, solved) →
        solved.content = (p.loadedInstance settings.coneMode).content :=
    (hp.yields_coldLoad engine _ hv hi _).ensures_bind ((hk.ensures _).startOn _)
  have ⟨_, hs⟩ := he c.outside c.log
  exact (hp.frames_loadedInstance _).of_content (hs record solved (congrArg Prod.fst hr))

section Carry

variable [Numeric α] {snapshot : Snapshot α (ReferenceOptimizer α)} {plan : Plan α}
  (h : snapshot.Outlines q mode) (hq : q.Valid) (hp : p.Valid) (hplan : snapshot.plan p = .ok plan)
include h hq hp hplan

-- An update carries its plan out and leaves the model at that, whatever comes of the run.
theorem frames_warmUpdate : ∃ m, snapshot.held.optimizer.model = some m ∧
    (warmUpdate (ReferenceOptimizer.operations engine) p options c snapshot plan).2.state.Frames
      p mode ∧
    (warmUpdate (ReferenceOptimizer.operations engine) p options c snapshot
      plan).2.state.optimizer.model = some (plan.writes.foldl Model.put m) := by
  have ⟨m, changed, hm, hy, hf, hw⟩ := h.yields_apply hq hp hplan engine
  have hk := keeps_run engine c.state.settings options (.ofMixedInteger p.isMixedInteger)
  have he : (update (ReferenceOptimizer.operations engine) plan c.state.settings
      (.ofMixedInteger p.isMixedInteger) options).Ensures snapshot.held fun _ s =>
        s.content = changed.content :=
    hy.ensures_bind (hk.ensures changed)
  have hs := he c.outside (c.log ++
    [.warmStart (c.state.name (ReferenceOptimizer.operations engine)) plan.objective.length
      plan.matrix.length plan.rhs.length plan.kinds.length])
  exact ⟨m, hm, hf.of_content hs, (Instance.model_eq_of_content hs).trans hw⟩

-- To take an update back never fails.
theorem frames_takeBack : ∃ m, snapshot.held.optimizer.model = some m ∧
    (takeBack (ReferenceOptimizer.operations engine) p options c snapshot plan).1 = .ok () ∧
    (takeBack (ReferenceOptimizer.operations engine) p options c snapshot plan).2.state.Frames
      q mode ∧
    (takeBack (ReferenceOptimizer.operations engine) p options c snapshot
      plan).2.state.optimizer.model =
        some (plan.reversed.writes.foldl Model.put (plan.writes.foldl Model.put m)) := by
  have ⟨m, hm, hf, hw⟩ := frames_warmUpdate engine options c h hq hp hplan
  unfold takeBack
  generalize warmUpdate (ReferenceOptimizer.operations engine) p options c snapshot plan = u
    at hf hw ⊢
  have ⟨back, hy, hb, hback⟩ := h.yields_revert hq hp hplan engine hf hw
  have ⟨_, ht⟩ := hy u.2.outside u.2.log
  rw [ht]
  exact ⟨m, hm, rfl, hb, hback⟩

end Carry

-- Where the instance of a snapshot frames its problem again, the snapshot outlines it again.
theorem outlines_withHeld {s : Snapshot α (ReferenceOptimizer α)}
    {back : Instance (ReferenceOptimizer α)} (h : s.Outlines p mode) (hb : back.Frames p mode) :
    Snapshot.Outlines { s with held := back } p mode :=
  ⟨hb, h.objective, h.matrix, h.rhs, h.partition, by rw [h.kinds, h.held.kinds, hb.kinds]⟩

variable [Numeric α] {options c} {engine}

theorem takeBack_eq_ok {snapshot : Snapshot α (ReferenceOptimizer α)} {plan : Plan α}
    (hc : c.state.cache.Outlined) (hv : p.validate = .ok ())
    (hw : c.state.warmPlan (ReferenceOptimizer.operations engine) p warm = .ok (snapshot, plan)) :
    (takeBack (ReferenceOptimizer.operations engine) p options c snapshot plan).1 = .ok () := by
  have ⟨_, hs, hplan⟩ := warmPlan_eq_ok_iff.mp hw
  have ⟨_, _, hq, _, ho⟩ := hc _ _ hs
  have ⟨_, _, ht, _⟩ := frames_takeBack engine options c ho (Problem.valid_of_validate hq)
    (Problem.valid_of_validate hv) hplan
  exact ht

theorem Step.outlined {r} {s : Session α (ReferenceOptimizer α)}
    (h : Step (ReferenceOptimizer.operations engine) p options warm c r s)
    (hc : c.state.cache.Outlined) (hi : p.Indexable) : s.cache.Outlined := by
  cases h
  case invalid => exact hc
  case unloaded => exact hc
  case faulted => exact hc
  case dropped => exact hc.erase _
  case lost => exact hc.erase _
  case loaded hv _ hr _ =>
    exact hc.store _ hv hi (frames_of_loadAndRun engine options _ hv hi hr) engine
  case updated hv hw _ _ =>
    have ⟨_, hs, hplan⟩ := warmPlan_eq_ok_iff.mp hw
    have ⟨q, mode, hq, _, ho⟩ := hc _ _ hs
    have ⟨_, _, hf, _⟩ := frames_warmUpdate engine options c ho (Problem.valid_of_validate hq)
      (Problem.valid_of_validate hv) hplan
    exact (hc.erase _).store _ hv hi hf engine
  case restored hv hw _ _ _ =>
    have ⟨_, hs, hplan⟩ := warmPlan_eq_ok_iff.mp hw
    have ⟨q, mode, hq, hqi, ho⟩ := hc _ _ hs
    have ⟨_, _, _, hf, _⟩ := frames_takeBack engine options c ho (Problem.valid_of_validate hq)
      (Problem.valid_of_validate hv) hplan
    exact (hc.erase _).restore _ hq hqi (outlines_withHeld ho hf)

omit [Numeric α] in
-- A problem that cannot be loaded is not stored either.
theorem Request.state_store (name : String) (mode : ConeMode) (hi : p.Indexable) :
    (((Request.store name p mode).run (ReferenceOptimizer.operations engine)).perform c).2.state =
        c.state ∨
      p.validate = .ok () ∧
      (((Request.store name p mode).run (ReferenceOptimizer.operations engine)).perform c).2.state =
        { c.state with
          cache := c.state.cache.store (ReferenceOptimizer.operations engine) name
            (p.loadedInstance mode) p } := by
  cases hv : p.validate
  case error cause =>
    have hl := Instance.perform_coldLoad_of_error hv engine mode c
    rw [Request.run, Action.perform_bind_of_error hl]
    exact .inl rfl
  case ok =>
    have hp := Problem.valid_of_validate hv
    have ⟨log, hl⟩ := hp.yields_coldLoad engine mode hv hi c.state c.outside c.log
    rw [Request.run, Action.perform_bind_of_ok hl]
    exact .inr ⟨rfl, rfl⟩

theorem outlined_run {request : Request α} (hc : c.state.cache.Outlined) (hi : request.Indexable) :
    ((request.run (ReferenceOptimizer.operations engine)).perform c).2.state.cache.Outlined := by
  cases request
  case solve call =>
    rw [Request.perform_solve]
    exact (step_solve _ call.problem call.options call.warm c).outlined hc hi
  case store name p mode =>
    obtain h | ⟨hv, h⟩ := Request.state_store name mode hi
    · rwa [h]
    · rw [h]
      exact hc.store name hv hi ((Problem.valid_of_validate hv).frames_loadedInstance mode) engine
  case invalidate name => exact hc.erase name
  case clear => exact .empty

theorem outlined_serve {requests : List (Request α)} (hc : c.state.cache.Outlined)
    (hi : ∀ request ∈ requests, request.Indexable) :
    (serve (ReferenceOptimizer.operations engine) c requests).state.cache.Outlined :=
  serve_keeps (P := fun c => c.state.cache.Outlined)
    (fun _ request hm hc => outlined_run hc (hi request hm)) hc

-- What a new session has come to after requests of problems whose indices are machine words.
def Reached (engine : Engine α ω) (c : Context α (Session α (ReferenceOptimizer α)) ω) : Prop :=
  ∃ settings outside log requests, (∀ request ∈ requests, Request.Indexable request) ∧
    c = serve (ReferenceOptimizer.operations engine) ⟨{ settings }, outside, log⟩ requests

theorem Reached.outlined (h : Reached engine c) : c.state.cache.Outlined := by
  have ⟨_, _, _, _, hi, hc⟩ := h
  rw [hc]
  exact outlined_serve .empty hi

end Session
end ConicProgram
