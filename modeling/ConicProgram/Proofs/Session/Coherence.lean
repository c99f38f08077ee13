import ConicProgram.Proofs.Session.Solving
import ConicProgram.Proofs.Warm.Chain

namespace ConicProgram

variable {α ω : Type} [Scalar α] {p q : Problem α} {mode : ConeMode}

namespace Snapshot

-- The model in the instance is, number by number, the one that a problem of the stored data is
-- loaded as.
structure Coherent (s : Snapshot α (ReferenceOptimizer α)) (engine : Engine α ω) (mode : ConeMode) :
    Prop where
  kinds : s.kinds = s.held.optimizer.kinds
  model : ∃ p cold m n,
    (p.objective = s.objective ∧ p.matrix = s.matrix ∧ p.rhs = s.rhs ∧ p.partition = s.partition) ∧
    (Instance.coldLoad (ReferenceOptimizer.operations engine) p mode).Yields () cold () ∧
    s.held.optimizer.model = some m ∧ cold.optimizer.model = some n ∧ m.Agrees n

-- What the problem is not declared to change is the same in the snapshot.
structure Covers {σ : Type} (s : Snapshot α σ) (p : Problem α) : Prop where
  objective : p.parameters.objective = false →
    ∀ j, s.objective.getD j 0 == p.objective.getD j 0
  matrix    : p.parameters.constraints = false → ∀ i j, s.matrix.entry i j == p.matrix.entry i j

variable [Numeric α] {s t : Snapshot α (ReferenceOptimizer α)} {engine : Engine α ω}

omit [Numeric α] in
theorem Describes.coherent (h : s.Describes p mode) (hp : p.Admissible) (engine : Engine α ω) :
    s.Coherent engine mode := by
  have ⟨m, hm, ha, _⟩ := h.held.model
  refine ⟨h.kinds, p, p.loadedInstance mode, m, p.loaded mode, ?_, ?_, hm, rfl, ha⟩
  · exact ⟨h.objective.symm, h.matrix.symm, h.rhs.symm, h.partition.symm⟩
  · exact hp.valid.yields_coldLoad engine mode hp.validated hp.indexable ()

omit [Numeric α] in
theorem Describes.withHeld {back : Instance (ReferenceOptimizer α)} (h : s.Describes p mode)
    (hb : back.Holds p mode) : Describes { s with held := back } p mode :=
  ⟨hb, h.objective, h.matrix, h.rhs, h.partition,
    by rw [h.kinds, h.held.frames.kinds, hb.frames.kinds]⟩

section Target

variable (hs : p.Similar q) (h : s.Describes p mode) (hq : q.Admissible)
include hs h hq

theorem Covers.agreesAt (hc : s.Covers q) (x : Model.Place) : (s.target q).AgreesAt q x := by
  cases x
  case objective j =>
    rw [Problem.AgreesAt, objective_target]
    split
    case isTrue => exact hq.agreesAt_refl (.objective j)
    case isFalse hf => exact hc.objective (by simpa using hf) j
  case coefficient i j =>
    rw [Problem.AgreesAt, matrix_target]
    split
    case isTrue => exact hq.agreesAt_refl (.coefficient i j)
    case isFalse hf => exact hc.matrix (by simpa using hf) i j
  case rhs i => exact hq.agreesAt_refl (.rhs i)
  case kind j =>
    rw [Problem.AgreesAt, kinds_target hs h.outlines]

omit hs h hq [Numeric α] in
theorem covers_of_agreesAt {r : Problem α} (ho : r.objective = q.objective)
    (hm : r.matrix = q.matrix) (ha : ∀ x, (s.target q).AgreesAt r x) : s.Covers q where
  objective hf j := by
    have hj : ((s.target q).objective.getD j 0 == r.objective.getD j 0) = true := ha (.objective j)
    rw [target, ho, hf] at hj
    exact hj
  matrix hf i j := by
    have hj : ((s.target q).matrix.entry i j == r.matrix.entry i j) = true :=
      ha (.coefficient i j)
    rw [target, hm, hf] at hj
    exact hj

end Target

section Stored

variable {held : Instance (ReferenceOptimizer α)} (hs : p.Similar q) (h : s.Describes p mode)
  (hp : p.Admissible) (hq : q.Admissible) (hh : held.Holds (s.target q) mode)
include hs h hp hq hh

theorem Covers.holds (hc : s.Covers q) : held.Holds q mode := by
  have hv := valid_target hs h.outlines hp.valid hq.valid
  have hn := numbers_target h hp.numbers hq.numbers
  have hst : (s.target q).Similar q := (target_similar hs h.outlines).symm.trans hs
  have ⟨m, hm, ha, hsc⟩ := hh.model
  refine ⟨?_, m, hm, ha.trans ?_, hsc⟩
  · rw [← hst.loadedInstance, ← hh.layout]
  · exact (Problem.agrees_loaded_iff hv hq.valid hn hq.numbers hst).mpr (hc.agreesAt hs h hq)

-- A coherent snapshot of the instance hides nothing of what the problem that is stored changes.
theorem covers_of_coherent (o : ω) (ht : t.Coherent engine mode) (hheld : t.held = held)
    (ho : t.objective = q.objective) (hm : t.matrix = q.matrix) (hr : t.rhs = q.rhs)
    (hd : t.partition = q.partition) : s.Covers q := by
  have ⟨r, cold, m, n, ⟨hro, hrm, hrr, hrd⟩, hy, htm, hn, ha⟩ := ht.model
  rw [ho] at hro
  rw [hm] at hrm
  rw [hr] at hrr
  rw [hd] at hrd
  have hra := hq.of_validate hro hrm hrr (Problem.validate_of_yields o hy)
  have hc := hra.valid.yields_coldLoad engine mode hra.validated hra.indexable ()
  -- So `cold` is the instance that stands for `r`.
  have hl := (hy.unique o hc).1
  rw [hl] at hn
  cases hn
  have ⟨m', hm', ha', _⟩ := hh.model
  rw [hheld, hm'] at htm
  cases htm
  refine covers_of_agreesAt hro hrm ?_
  refine (Problem.agrees_loaded_iff (valid_target hs h.outlines hp.valid hq.valid) hra.valid
    (numbers_target h hp.numbers hq.numbers) hra.numbers ⟨?_, hrd.symm⟩).mp (ha'.symm.trans ha)
  rw [← (target_similar hs h.outlines).columns, hs.columns, Problem.variableCount,
    Problem.variableCount, hrm]

end Stored
end Snapshot

namespace Session

variable {σ : Type}

structure Call (α : Type) where
  problem : Problem α
  warm    : Bool
  options : SolveOptions α

def Call.run (call : Call α) (opt : Optimizer α σ ω) :
    Action α (Session α σ) ω (SolveError α) (SolveRecord α) :=
  solve opt call.problem call.warm call.options

-- The calls are made one after the other, whether they succeed or not.
def follow (opt : Optimizer α σ ω) (c : Context α (Session α σ) ω) (calls : List (Call α)) :
    Context α (Session α σ) ω :=
  calls.foldl (fun c call => ((call.run opt).perform c).2) c

def Delivers {ε : Type} (r : Attempt ε (SolveRecord α)) : Prop :=
  ∃ record, r = .ok record ∧ record.status ≠ .failed

-- The problem is stored over an instance that has been taken over from a snapshot, and which does
-- not have what the problem does not declare to change.
def Hides {ε : Type} (opt : Optimizer α σ ω) (s : Session α σ) (p : Problem α) (warm : Bool)
    (r : Attempt ε (SolveRecord α)) : Prop :=
  ∃ snapshot plan, s.warmPlan opt p warm = .ok (snapshot, plan) ∧ Delivers r ∧ ¬snapshot.Covers p

def Call.Hides (call : Call α) (opt : Optimizer α σ ω) (c : Context α (Session α σ) ω) : Prop :=
  Session.Hides opt c.state call.problem call.warm ((call.run opt).perform c).1

omit [Scalar α] in
theorem delivers_ok_iff {ε : Type} {record : SolveRecord α} :
    Delivers (.ok record : Attempt ε _) ↔ record.status ≠ .failed := by
  refine ⟨fun ⟨_, h, hs⟩ => ?_, fun h => ⟨record, rfl, h⟩⟩
  cases h
  exact hs

omit [Scalar α] in
theorem not_delivers_error {ε : Type} {e : Failure ε} :
    ¬Delivers (.error e : Attempt ε (SolveRecord α)) := by
  intro ⟨_, h, _⟩
  cases h

def Coherent (s : Session α (ReferenceOptimizer α)) (engine : Engine α ω) : Prop :=
  ∀ name snapshot, s.cache.get? name = some snapshot →
    snapshot.Coherent engine s.settings.coneMode

-- Each snapshot describes a problem.
def Grounded (s : Session α (ReferenceOptimizer α)) : Prop :=
  ∀ name snapshot, s.cache.get? name = some snapshot →
    ∃ p : Problem α, p.Admissible ∧ snapshot.Describes p s.settings.coneMode

structure Follows (s : Session α (ReferenceOptimizer α)) (engine : Engine α ω) (hides : Prop)
    (t : Session α (ReferenceOptimizer α)) : Prop where
  settings : t.settings = s.settings
  grounded : ¬hides → t.Grounded
  coherent : t.Coherent engine → ¬hides

variable {s : Session α (ReferenceOptimizer α)} {held : Instance (ReferenceOptimizer α)}
  {snapshot : Snapshot α (ReferenceOptimizer α)} {plan : Plan α}

theorem Grounded.coherent (h : s.Grounded) (engine : Engine α ω) : s.Coherent engine := by
  intro name snapshot hs
  have ⟨p, hp, hd⟩ := h name snapshot hs
  exact hd.coherent hp engine

theorem grounded_new (settings : Settings) :
    Grounded ({ settings } : Session α (ReferenceOptimizer α)) :=
  Cache.forall_empty

section Cache

variable (hg : s.Grounded) (name : String)
include hg

theorem Grounded.erase : Grounded { s with cache := s.cache.erase name } :=
  Cache.forall_erase hg name

theorem Grounded.restore (hp : p.Admissible) (h : snapshot.Describes p s.settings.coneMode) :
    Grounded { s with cache := s.cache.restore name snapshot } :=
  Cache.forall_restore hg name ⟨p, hp, h⟩

theorem Grounded.store (hp : p.Admissible) (h : held.Holds p s.settings.coneMode)
    (engine : Engine α ω) :
    Grounded { s with
      cache := s.cache.store (ReferenceOptimizer.operations engine) name held p } :=
  Cache.forall_store hg name ⟨p, hp, h, rfl, rfl, rfl, rfl, rfl⟩

end Cache

variable [Numeric α] (engine : Engine α ω) (name : String) (kind : ProblemKind)
  (options : SolveOptions α)

theorem ensures_solveCold (hg : s.Grounded) (hp : p.Admissible) :
    (solveCold (ReferenceOptimizer.operations engine) name p kind options).Ensures s fun _ t =>
      t.settings = s.settings ∧ t.Grounded := by
  refine Action.yields_state.ensures_bind ?_
  refine (hp.valid.yields_coldLoad engine _ hp.validated hp.indexable s).ensures_bind ?_
  refine ((keeps_run engine s.settings options kind).ensures _ |>.startOn s).bind ?_ ?_
  case refine_2 =>
    intro e t ⟨ht, _⟩
    rw [ht]
    exact ⟨rfl, hg⟩
  case refine_1 =>
    intro (record, solved) t ⟨ht, hk⟩
    have hh := (hp.holds_loadedInstance s.settings.coneMode).of_content (hk record solved rfl)
    cases ht
    dsimp only
    split
    case isTrue => exact Action.ensures_pure ⟨rfl, hg⟩
    case isFalse =>
      refine (Action.yields_modifyState _).ensures_bind (Action.ensures_pure ⟨rfl, ?_⟩)
      exact hg.store name hp hh engine

-- An instance that has been brought to another problem is taken back to the one of the snapshot.
theorem yields_rollBack (h : snapshot.Describes p mode) (hp : p.Admissible) (hq : q.Admissible)
    (hplan : snapshot.plan q = .ok plan) (hh : held.Holds (snapshot.target q) mode) :
    ∃ back, back.Holds p mode ∧
      (rollBack (ReferenceOptimizer.operations engine) name snapshot plan held).Yields s ()
        { s with cache := s.cache.restore name { snapshot with held := back } } := by
  have hshape := (Snapshot.planned_of_plan hplan).shape
  have hs := Snapshot.similar_of_checkShape h.outlines hp.valid hshape
  have hv := Snapshot.valid_target hs h.outlines hp.valid hq.valid
  have hn := Snapshot.numbers_target h hp.numbers hq.numbers
  have ht := Snapshot.target_similar hs h.outlines
  have hb := h.between hp.valid hq.valid hp.numbers hplan
  have ⟨back, hy, hback⟩ := (hb.reversed (Problem.heldRows_eq hp.valid hv ht)).yields_apply hv
    hp.valid hn hp.numbers ht.symm engine hh
  refine ⟨back, hback, .bind (hy.runOn s) ?_⟩
  exact Action.yields_modifyState _

section Warm

variable (o : ω) (hg : s.Grounded) (h : snapshot.Describes p s.settings.coneMode)
  (hp : p.Admissible) (hq : q.Admissible) (hplan : snapshot.plan q = .ok plan)
include hg h hp hq hplan

omit hg in
theorem ensures_update :
    (update (ReferenceOptimizer.operations engine) plan s.settings kind options).Ensures
      snapshot.held fun _ held => held.Holds (snapshot.target q) s.settings.coneMode := by
  have ⟨held, hy, hh⟩ := h.yields_apply hp hq hplan engine
  refine hy.ensures_bind fun outside log => ?_
  exact hh.of_content ((keeps_run engine s.settings options kind).ensures held outside log)

include o in
omit hg in
-- The snapshot that is stored is coherent only if the problem hides nothing.
theorem covers_of_coherent_store (hh : held.Holds (snapshot.target q) s.settings.coneMode)
    (hc : Coherent { s with
      cache := s.cache.store (ReferenceOptimizer.operations engine) name held q } engine) :
    snapshot.Covers q := by
  have hshape := (Snapshot.planned_of_plan hplan).shape
  have hs := Snapshot.similar_of_checkShape h.outlines hp.valid hshape
  have ht := hc name _ (by rw [Cache.get?_store, if_pos rfl])
  exact Snapshot.covers_of_coherent hs h hp hq hh o ht rfl rfl rfl rfl rfl

include o in
theorem ensures_solveWarm :
    (solveWarm (ReferenceOptimizer.operations engine) name snapshot q plan kind options).Ensures s
      fun r t => s.Follows engine (Delivers r ∧ ¬snapshot.Covers q) t := by
  have hshape := (Snapshot.planned_of_plan hplan).shape
  have hs := Snapshot.similar_of_checkShape h.outlines hp.valid hshape
  have he := hg.erase name
  have hback {back : Instance (ReferenceOptimizer α)} {hides : Prop}
      (hb : back.Holds p s.settings.coneMode) (hn : ¬hides) : s.Follows engine hides { s with
        cache := (s.cache.erase name).restore name { snapshot with held := back } } :=
    ⟨rfl, fun _ => he.restore name hp (h.withHeld hb), fun _ => hn⟩
  refine Action.yields_state.ensures_bind ?_
  refine (Action.yields_modifyState _).ensures_bind ?_
  refine (Action.yields_record _).ensures_bind ?_
  refine ((ensures_update engine kind options h hp hq hplan).runOn _).bind ?_ ?_
  case refine_2 =>
    intro e t ⟨_, _, _, he, _⟩
    cases he
  case refine_1 =>
    intro r t ⟨ht, result, held, hr, hh⟩
    cases ht
    cases hr
    have ⟨back, hb, hy⟩ := yields_rollBack (s := { s with cache := s.cache.erase name }) engine
      name h hp hq hplan hh
    rcases result with (_ | cause) | record
    case error.fault =>
      exact Action.ensures_ofAttempt ⟨rfl, fun _ => he, fun _ hd => not_delivers_error hd.1⟩
    case error.refused =>
      exact hy.ensures_bind <| Action.ensures_ofAttempt <|
        hback hb fun hd => not_delivers_error hd.1
    case ok =>
      dsimp only
      split
      case isTrue hf =>
        refine hy.ensures_bind (Action.ensures_pure (hback hb ?_))
        rw [delivers_ok_iff]
        exact fun hd => hd.1 hf
      case isFalse hf =>
        refine (Action.yields_modifyState _).ensures_bind (Action.ensures_pure ⟨rfl, ?_, ?_⟩)
        · rw [delivers_ok_iff, not_and_not_right]
          intro hc
          exact he.store name hq ((hc hf).holds hs h hp hq hh) engine
        · rw [not_and_not_right]
          intro hc _
          exact covers_of_coherent_store (s := { s with cache := s.cache.erase name }) engine name
            o h hp hq hplan hh hc

end Warm

omit [Numeric α] in
theorem warmPlan_eq_ok_iff {σ ω : Type} {opt : Optimizer α σ ω} {s : Session α σ} {warm : Bool}
    {t : Snapshot α σ} : s.warmPlan opt p warm = .ok (t, plan) ↔
      warm ∧ s.cache.get? (s.name opt) = some t ∧ t.plan p = .ok plan := by
  unfold warmPlan
  cases warm
  case false => simp [Attempt.refuse]
  case true =>
    cases hs : s.cache.get? (s.name opt)
    case none => simp [Attempt.refuse]
    case some t' =>
      simp only [Bool.not_true, Bool.false_eq_true, if_false, Attempt.bind_eq_ok_iff, true_and,
        Option.some.injEq]
      constructor
      case mp =>
        rintro ⟨plan', h, he⟩
        cases he
        exact ⟨rfl, h⟩
      case mpr =>
        rintro ⟨ht, h⟩
        exact ⟨plan, ht ▸ h, by rw [ht]; rfl⟩

-- The session keeps its settings. It is grounded again, unless the call has hidden a change in what
-- it has stored, and in that case it is not even coherent.
theorem ensures_solve (o : ω) (hg : s.Grounded) (hp : p.validate = .ok () → p.Admissible)
    (warm : Bool) :
    (solve (ReferenceOptimizer.operations engine) p warm options).Ensures s fun r t =>
      s.Follows engine (s.Hides (ReferenceOptimizer.operations engine) p warm r) t := by
  have hn {e : Failure (SolveError α)} {opt : Optimizer α (ReferenceOptimizer α) ω} :
      ¬s.Hides opt p warm (.error e) := fun ⟨_, _, _, hd, _⟩ => absurd hd not_delivers_error
  refine ensures_of_validate (fun _ => ⟨rfl, fun _ => hg, fun _ => hn⟩) fun hv => ?_
  have hp := hp hv
  dsimp only
  split
  case h_1 snapshot plan hw =>
    have ⟨_, hs, hplan⟩ := warmPlan_eq_ok_iff.mp hw
    have ⟨p', hp', hd⟩ := hg _ snapshot hs
    refine (ensures_solveWarm engine _ _ options o hg hd hp' hp hplan).mono ?_
    intro r t hf
    have hh : s.Hides (ReferenceOptimizer.operations engine) p warm r ↔
        Delivers r ∧ ¬snapshot.Covers p := by
      refine ⟨fun ⟨_, _, he, hr⟩ => ?_, fun hr => ⟨snapshot, plan, hw, hr⟩⟩
      rw [hw] at he
      cases he
      exact hr
    rw [hh]
    exact hf
  case h_2 => exact Action.ensures_ofAttempt ⟨rfl, fun _ => hg, fun _ => hn⟩
  case h_3 reason hw =>
    refine (Action.yields_record _).ensures_bind ?_
    refine (ensures_solveCold engine _ _ options hg hp).mono ?_
    intro r t ⟨ht, hg⟩
    refine ⟨ht, fun _ => hg, fun _ ⟨_, _, he, _⟩ => ?_⟩
    rw [hw] at he
    cases he

section Run

variable {c : Context α (Session α (ReferenceOptimizer α)) ω} {call : Call α}
  {calls : List (Call α)}

theorem Grounded.follows (hg : c.state.Grounded)
    (hp : call.problem.validate = .ok () → call.problem.Admissible) :
    c.state.Follows engine (call.Hides (ReferenceOptimizer.operations engine) c)
      ((call.run (ReferenceOptimizer.operations engine)).perform c).2.state :=
  ensures_solve engine call.options c.outside hg hp call.warm c.outside c.log

-- Without hidden changes a run leads from one grounded session to another.
theorem Grounded.follow (hg : c.state.Grounded)
    (hp : ∀ call ∈ calls, call.problem.validate = .ok () → call.problem.Admissible)
    (hn : ∀ before call, before ++ [call] <+: calls →
      ¬call.Hides (ReferenceOptimizer.operations engine)
        (follow (ReferenceOptimizer.operations engine) c before)) :
    (Session.follow (ReferenceOptimizer.operations engine) c calls).state.Grounded := by
  induction calls generalizing c
  case nil => exact hg
  case cons call calls hi =>
    have hf := hg.follows engine (hp call (List.mem_cons_self ..))
    have hd := hf.grounded (hn [] call (List.prefix_append [call] calls))
    refine hi hd (fun call hm => hp call (List.mem_cons_of_mem _ hm)) fun before next h => ?_
    exact hn (call :: before) next (List.prefix_cons_inj call |>.mpr h)

theorem not_hides_of_coherent (hg : c.state.Grounded)
    (hp : ∀ call ∈ calls, call.problem.validate = .ok () → call.problem.Admissible)
    (hc : ∀ before, before <+: calls →
      (follow (ReferenceOptimizer.operations engine) c before).state.Coherent engine)
    {before : List (Call α)} (h : before ++ [call] <+: calls) :
    ¬call.Hides (ReferenceOptimizer.operations engine)
      (follow (ReferenceOptimizer.operations engine) c before) := by
  induction before generalizing c calls
  case nil =>
    have ⟨rest, hr⟩ := h
    have hm : call ∈ calls := hr ▸ List.mem_cons_self ..
    exact (hg.follows engine (hp call hm)).coherent (hc [call] h)
  case cons first before hi =>
    cases calls
    case nil => exact absurd (List.prefix_nil.mp h) (List.cons_ne_nil _ _)
    case cons first' calls =>
      have ⟨he, ht⟩ := List.cons_prefix_cons.mp h
      cases he
      have hf := hg.follows engine (hp first (List.mem_cons_self ..))
      have hd := hf.grounded (hf.coherent (hc [first] (List.prefix_append [first] calls)))
      refine hi hd (fun call hm => hp call (List.mem_cons_of_mem _ hm)) (fun before h => ?_) ht
      exact hc (first :: before) (List.prefix_cons_inj first |>.mpr h)

-- However many calls are made of a new session, its snapshots are coherent all the time exactly if
-- no call stores data that the instance has not been given.
theorem coherent_follow_iff (settings : Settings) (outside : ω) (log : List (Event α))
    (hp : ∀ call ∈ calls, call.problem.validate = .ok () → call.problem.Admissible) :
    (∀ before, before <+: calls → (follow (ReferenceOptimizer.operations engine)
      ⟨{ settings }, outside, log⟩ before).state.Coherent engine) ↔
    ∀ before call, before ++ [call] <+: calls →
      ¬call.Hides (ReferenceOptimizer.operations engine)
        (follow (ReferenceOptimizer.operations engine) ⟨{ settings }, outside, log⟩ before) := by
  have hg := grounded_new (α := α) settings
  constructor
  case mp => exact fun hc before call h => not_hides_of_coherent engine hg hp hc h
  case mpr =>
    intro hn before h
    refine (Grounded.follow engine hg (fun call hm => hp call (h.subset hm)) ?_).coherent engine
    exact fun first call hb => hn first call (hb.trans h)

end Run

section Hidden

-- An engine that finds no solution.
def refuting : Engine Float Unit :=
  fun _ => pure (.ok { status := .primalInfeasible, primal := [], dual := [], objective := 0 })

def firstCall : Call Float where
  problem := .disc (1, 1) 1
  warm    := false
  options := {}

-- The slope is another one, and the problem does not say that it may be.
def hidingCall : Call Float where
  problem := { Problem.disc (0, 1) 1 with parameters := ⟨false, false⟩ }
  warm    := true
  options := {}

theorem admissible_firstCall : firstCall.problem.Admissible :=
  Problem.admissible_disc Numeric.one_isNumber Numeric.one_isNumber Numeric.one_isNumber

theorem admissible_hidingCall : hidingCall.problem.Admissible :=
  (Problem.admissible_disc Numeric.zero_isNumber Numeric.one_isNumber
    Numeric.one_isNumber).of_validate rfl rfl rfl rfl

theorem coherent_follow_hidingCall :
    (∀ before, before <+: [firstCall, hidingCall] →
      (follow (ReferenceOptimizer.operations refuting) ⟨{ settings := {} }, (), []⟩
        before).state.Coherent refuting) ↔
    ∀ before call, before ++ [call] <+: [firstCall, hidingCall] →
      ¬call.Hides (ReferenceOptimizer.operations refuting)
        (follow (ReferenceOptimizer.operations refuting) ⟨{ settings := {} }, (), []⟩ before) := by
  refine coherent_follow_iff refuting {} () [] fun call hc _ => ?_
  simp only [List.mem_cons, List.not_mem_nil, or_false] at hc
  rcases hc with rfl | rfl
  · exact admissible_firstCall
  · exact admissible_hidingCall

theorem yields_run_firstCall {s : Instance (ReferenceOptimizer Float)}
    (hs : s.Holds firstCall.problem .auxiliary) :
    ∃ s', (run (ReferenceOptimizer.operations refuting) {} .continuous {}).Yields s
      (.withoutSolution .infeasible) s' := by
  obtain ⟨m, hm, ha, hsc⟩ := hs.model
  have hk : m.columns = (firstCall.problem.loaded .auxiliary).columns := ha.columns
  have hl : m.columnBounds.length ≤ m.columnCount := by
    simp [Model.columnBounds, Model.columnCount]
  obtain ⟨a, he, _⟩ := hsc.exists_assemble? hl
  refine yields_run {} (fun _ => rfl) rfl hm ?_ he ?_
  · rw [Model.hasDiscrete, hk]
    rfl
  · rw [Model.columnCount, hk]
    exact Nat.succ_ne_zero _

theorem plan_hidingCall {t : Snapshot Float (ReferenceOptimizer Float)}
    (ht : t.Describes firstCall.problem .auxiliary) : t.plan hidingCall.problem = .ok {} := by
  have hk : t.kinds = (firstCall.problem.loaded .auxiliary).columns.map (·.kind) := by
    rw [ht.kinds, ht.held.frames.kinds]
  rw [Snapshot.plan, Snapshot.checkShape, ht.objective, ht.partition, ht.rhs, hk]
  rfl

-- The first call leaves an instance of its problem.
theorem yields_firstCall : ∃ held, held.Holds firstCall.problem .auxiliary ∧
    (firstCall.run (ReferenceOptimizer.operations refuting)).Yields { settings := {} }
      (.withoutSolution .infeasible)
      { settings := {}
        cache := .store {} (ReferenceOptimizer.operations refuting) "CLARABEL" held
          firstCall.problem } := by
  have hp := admissible_firstCall
  have hh := hp.holds_loadedInstance .auxiliary
  have ⟨solved, hr⟩ := yields_run_firstCall hh
  refine ⟨solved, hh.of_content ((keeps_run refuting {} {} .continuous).eq_of_yields () hr), ?_⟩
  exact yields_solve_cold rfl rfl
    (hp.valid.yields_coldLoad refuting .auxiliary hp.validated hp.indexable _) hr nofun

-- The second one makes no change to it and is stored all the same.
theorem hides_hidingCall {held : Instance (ReferenceOptimizer Float)}
    (h : held.Holds firstCall.problem .auxiliary) (log : List (Event Float)) :
    hidingCall.Hides (ReferenceOptimizer.operations refuting)
      ⟨{ settings := {}
         cache := .store {} (ReferenceOptimizer.operations refuting) "CLARABEL" held
          firstCall.problem }, (), log⟩ := by
  have ⟨snapshot, hget, hd⟩ := Cache.describes_store refuting {} "CLARABEL" h
  have hw : warmPlan (ReferenceOptimizer.operations refuting)
      { settings := {}
        cache := .store {} (ReferenceOptimizer.operations refuting) "CLARABEL" held
          firstCall.problem } hidingCall.problem true = .ok (snapshot, {}) :=
    warmPlan_eq_ok_iff.mpr ⟨rfl, hget, plan_hidingCall hd⟩
  have ⟨changed, hr⟩ := yields_run_firstCall hd.held
  have hy : (hidingCall.run (ReferenceOptimizer.operations refuting)).Yields _ _ _ :=
    yields_solve_warm rfl hw (.bind (Instance.yields_call Action.yields_pure) hr) nofun
  have ⟨_, hy⟩ := hy () log
  refine ⟨snapshot, {}, hw, ⟨_, congrArg Prod.fst hy, nofun⟩, fun hc => ?_⟩
  have hj := hc.objective rfl 0
  rw [hd.objective] at hj
  exact absurd hj (by decide)

theorem not_coherent_hidingCall :
    ¬(follow (ReferenceOptimizer.operations refuting) ⟨{ settings := {} }, (), []⟩
      [firstCall, hidingCall]).state.Coherent refuting := by
  intro hc
  have ⟨held, hh, hy⟩ := yields_firstCall
  have ⟨log, hy⟩ := hy () []
  have hg := (grounded_new {}).store "CLARABEL" admissible_firstCall hh refuting
  have hf := hg.follows (c := ⟨_, (), log⟩) refuting fun _ => admissible_hidingCall
  refine hf.coherent ?_ (hides_hidingCall hh log)
  rw [follow, List.foldl_cons, congrArg Prod.snd hy] at hc
  exact hc

end Hidden
end Session
end ConicProgram
