import ConicProgram.Proofs.Model.Assembly
import ConicProgram.Proofs.Scalar.Binary64
import ConicProgram.Proofs.Warm.Held

namespace ConicProgram

namespace Cache

variable {α σ ω : Type} [Scalar α]

-- Takes the instance in the cache from `p` to `q` if there is a plan, and tells what it holds then.
def advance (opt : Optimizer α σ ω) (name : String) (p q : Problem α) :
    Action α (Cache α σ) ω (SolveError α) (Problem α) := do
  let snapshot ← Action.ofOption ((← Action.state).get? name)
  match snapshot.plan q with
  | .error .fault => Action.ofAttempt .fault
  | .error (.refused _) => return p
  | .ok plan =>
    let (_, held) ← (Instance.call (plan.apply opt)).startOn snapshot.held
    Action.modifyState (·.store opt name held q)
    return q

-- Loads a problem and goes through others one after the other, from what is held to what is next.
def follow (opt : Optimizer α σ ω) (name : String) (mode : ConeMode) (p : Problem α)
    (qs : List (Problem α)) : Action α (Cache α σ) ω (SolveError α) (Problem α) := do
  let held ← Instance.coldLoad opt p mode
  Action.modifyState (·.store opt name held p)
  qs.foldlM (advance opt name) p

end Cache

variable {α ω : Type} [Scalar α] [Numeric α] {p q : Problem α} {mode : ConeMode}

section Plans

variable {s : Snapshot α (ReferenceOptimizer α)} {plan : Plan α}

theorem Snapshot.Describes.yields_apply (h : s.Describes p mode) (hp : p.Admissible)
    (hq : q.Admissible) (hplan : s.plan q = .ok plan) (engine : Engine α ω) :
    ∃ held, (Instance.call (plan.apply (ReferenceOptimizer.operations engine))).Yields
      s.held () held ∧ held.Holds (s.target q) mode := by
  have hs := similar_of_checkShape h.outlines hp.valid (planned_of_plan hplan).shape
  have ht := valid_target hs h.outlines hp.valid hq.valid
  have hn := numbers_target h hp.numbers hq.numbers
  exact (h.between hp.valid hq.valid hp.numbers hplan).yields_apply hp.valid ht hp.numbers hn
    (target_similar hs h.outlines) engine h.held

end Plans

namespace Cache

section Lookup

variable {σ : Type} (c : Cache α σ) (name k : String)

omit [Scalar α] [Numeric α] in
theorem get?_erase : (c.erase name).get? k = if k = name then none else c.get? k :=
  OrderedMap.get?_erase

omit [Scalar α] [Numeric α] in
theorem get?_restore (s : Snapshot α σ) :
    (c.restore name s).get? k = if k = name then some s else c.get? k :=
  OrderedMap.get?_insert

omit [Scalar α] [Numeric α] in
theorem get?_store (opt : Optimizer α σ ω) (held : Instance σ) (p : Problem α) :
    (c.store opt name held p).get? k = if k = name
      then some ⟨held, p.objective, p.matrix, p.rhs, p.partition, opt.kinds held.optimizer,
        c.version + 1⟩
      else c.get? k :=
  OrderedMap.get?_insert

end Lookup

section Entries

-- What is true of each entry stays true if it is true of the one that is put in.
variable {σ : Type} {c : Cache α σ} {P : Snapshot α σ → Prop}

omit [Scalar α] [Numeric α] in
theorem forall_empty : ∀ k t, ({} : Cache α σ).get? k = some t → P t := by
  intro k t ht
  rw [get?, OrderedMap.get?_empty] at ht
  cases ht

variable (h : ∀ k t, c.get? k = some t → P t) (name : String)
include h

omit [Scalar α] [Numeric α] in
theorem forall_erase : ∀ k t, (c.erase name).get? k = some t → P t := by
  intro k t ht
  rw [get?_erase] at ht
  split at ht
  case isTrue => cases ht
  case isFalse => exact h k t ht

omit [Scalar α] [Numeric α] in
theorem forall_restore {s : Snapshot α σ} (hs : P s) :
    ∀ k t, (c.restore name s).get? k = some t → P t := by
  intro k t ht
  rw [get?_restore] at ht
  split at ht
  case isTrue =>
    cases ht
    exact hs
  case isFalse => exact h k t ht

omit [Scalar α] [Numeric α] in
theorem forall_store {opt : Optimizer α σ ω} {held : Instance σ} {p : Problem α}
    (hs : P ⟨held, p.objective, p.matrix, p.rhs, p.partition, opt.kinds held.optimizer,
      c.version + 1⟩) : ∀ k t, (c.store opt name held p).get? k = some t → P t := by
  intro k t ht
  rw [get?_store] at ht
  split at ht
  case isTrue =>
    cases ht
    exact hs
  case isFalse => exact h k t ht

end Entries

variable {engine : Engine α ω} {name : String} {c : Cache α (ReferenceOptimizer α)}
  {held : Instance (ReferenceOptimizer α)}

-- What is found under the name describes the problem.
def Describes (c : Cache α (ReferenceOptimizer α)) (name : String) (p : Problem α)
    (mode : ConeMode) : Prop :=
  ∃ s, c.get? name = some s ∧ s.Describes p mode

omit [Numeric α] in
theorem describes_store (engine : Engine α ω) (c : Cache α (ReferenceOptimizer α)) (name : String)
    (h : held.Holds p mode) :
    (c.store (ReferenceOptimizer.operations engine) name held p).Describes name p mode := by
  refine ⟨_, by rw [get?_store, if_pos rfl], ?_⟩
  exact ⟨h, rfl, rfl, rfl, rfl, rfl⟩

def AllChange (p : Problem α) : Prop :=
  p.parameters.objective ∧ p.parameters.constraints

theorem Describes.advance (hc : c.Describes name p mode) (hp : p.Admissible) (hq : q.Admissible)
    (hf : AllChange q) (engine : Engine α ω) :
    ∃ r c', (advance (ReferenceOptimizer.operations engine) name p q).Yields c r c' ∧
      (r = p ∨ r = q) ∧ c'.Describes name r mode := by
  have ⟨s, hs, hd⟩ := hc
  cases hplan : s.plan q
  case error e =>
    cases e
    case fault => exact absurd hplan (hd.outlines.plan_ne_fault hp.valid hq.valid)
    case refused reason =>
      refine ⟨p, c, ?_, .inl rfl, hc⟩
      refine .bind Action.yields_state (.bind (Action.yields_ofOption hs) ?_)
      rw [hplan]
      exact Action.yields_pure
  case ok plan =>
    have ⟨held, hy, hh⟩ := hd.yields_apply hp hq hplan engine
    have ht : s.target q = q := by rw [Snapshot.target, if_pos hf.1, if_pos hf.2]
    refine ⟨q, _, ?_, .inr rfl, describes_store engine c name (ht ▸ hh)⟩
    refine .bind Action.yields_state (.bind (Action.yields_ofOption hs) ?_)
    rw [hplan]
    exact .bind (hy.startOn c) (.bind (Action.yields_modifyState _) Action.yields_pure)

-- The problems are gone through one after the other, and what is in the cache follows.
theorem Describes.foldlM_advance (hc : c.Describes name p mode) (hp : p.Admissible)
    {qs : List (Problem α)} (hq : ∀ q ∈ qs, q.Admissible ∧ AllChange q) (engine : Engine α ω) :
    ∃ r c',
      (qs.foldlM (Cache.advance (ReferenceOptimizer.operations engine) name) p).Yields c r c' ∧
      r ∈ p :: qs ∧ r.Admissible ∧ c'.Describes name r mode := by
  induction qs generalizing c p
  case nil => exact ⟨p, c, Action.yields_pure, List.mem_cons_self .., hp, hc⟩
  case cons q qs hi =>
    have ⟨hqa, hqf⟩ := hq q (List.mem_cons_self ..)
    have ⟨r, c', hy, hr, hc'⟩ := hc.advance hp hqa hqf engine
    have hra : r.Admissible := by
      rcases hr with rfl | rfl
      · exact hp
      · exact hqa
    have ⟨t, c'', hy', ht, hta, hc''⟩ := hi hc' hra fun q hm => hq q (List.mem_cons_of_mem _ hm)
    refine ⟨t, c'', .bind hy hy', ?_, hta, hc''⟩
    rcases hr with rfl | rfl
    · rcases List.mem_cons.mp ht with rfl | ht
      · exact List.mem_cons_self ..
      · exact List.mem_cons_of_mem _ (List.mem_cons_of_mem _ ht)
    · exact List.mem_cons_of_mem _ ht

-- However long the chain of warm updates is, all of them succeed. The model that is held then and
-- the one of a fresh load are the same in every number, and so is what they are assembled to.
theorem follow_agrees_coldLoad (engine : Engine α ω) (mode : ConeMode) (name : String)
    (c : Cache α (ReferenceOptimizer α)) (hp : p.Admissible) {qs : List (Problem α)}
    (hq : ∀ q ∈ qs, q.Admissible ∧ AllChange q) :
    ∃ r c' s cold m n,
      (follow (ReferenceOptimizer.operations engine) name mode p qs).Yields c r c' ∧
      r ∈ p :: qs ∧
      c'.get? name = some s ∧
      s.held.optimizer.model = some m ∧
      (Instance.coldLoad (ReferenceOptimizer.operations engine) r mode).Yields c' cold c' ∧
      cold.optimizer.model = some n ∧
      m.Agrees n ∧
      ∀ bounds, Option.Rel Assembled.Agrees (m.assemble? bounds) (n.assemble? bounds) := by
  have hc := describes_store engine c name (hp.holds_loadedInstance mode)
  have ⟨r, c', hy, hr, hra, s, hs, hd⟩ := hc.foldlM_advance hp hq engine
  have ⟨m, hm, ha, hsc⟩ := hd.held.model
  refine ⟨r, c', s, r.loadedInstance mode, m, r.loaded mode, ?_, hr, hs, hm, ?_, rfl, ha, ?_⟩
  · exact .bind (hp.valid.yields_coldLoad engine mode hp.validated hp.indexable c)
      (.bind (Action.yields_modifyState _) hy)
  · exact hra.valid.yields_coldLoad engine mode hra.validated hra.indexable c'
  · exact fun bounds => ha.assemble? hsc (hra.valid.scoped_loaded mode)

end Cache

section Disc

-- To minimise the slope over the points `(x, y)` of the disc of radius one with `x ≤ limit`.
def Problem.disc (slope : Float × Float) (limit : Float) : Problem Float where
  objective := [slope.1, slope.2]
  matrix := {
    rows := 4
    cols := 2
    starts := [0, 2, 3]
    rowIndices := [0, 2, 3]
    values := [1, 1, 1] }
  rhs := [limit, 1, 0, 0]
  partition := ⟨0, 1, [3]⟩

theorem Problem.admissible_disc {x y limit : Float} (hx : Scalar.IsNumber x)
    (hy : Scalar.IsNumber y) (hl : Scalar.IsNumber limit) :
    (disc (x, y) limit).Admissible where
  validated := rfl
  indexable := by
    have h : 4 ≤ Starts.wordSize := by decide
    exact ⟨h, (by decide : 2 ≤ 4).trans h⟩
  numbers := by
    have h₀ : Scalar.IsNumber (0 : Float) := Numeric.zero_isNumber
    have h₁ : Scalar.IsNumber (1 : Float) := Numeric.one_isNumber
    refine ⟨?_, ?_, ?_⟩ <;> simp [disc, *]

theorem Cache.follow_disc :
    ∃ r c' s cold m n,
      (follow (ReferenceOptimizer.operations (ω := Unit) fun _ => pure (.error "down")) "disc"
        .auxiliary (.disc (1, 1) 1) [.disc (0, 1) 0, .disc (1, 0) 1]).Yields {} r c' ∧
      r ∈ [Problem.disc (1, 1) 1, .disc (0, 1) 0, .disc (1, 0) 1] ∧
      c'.get? "disc" = some s ∧
      s.held.optimizer.model = some m ∧
      (Instance.coldLoad (ReferenceOptimizer.operations (ω := Unit)
        fun _ => pure (.error "down")) r .auxiliary).Yields c' cold c' ∧
      cold.optimizer.model = some n ∧
      m.Agrees n ∧
      ∀ bounds, Option.Rel Assembled.Agrees (m.assemble? bounds) (n.assemble? bounds) := by
  have h₀ : Scalar.IsNumber (0 : Float) := Numeric.zero_isNumber
  have h₁ : Scalar.IsNumber (1 : Float) := Numeric.one_isNumber
  refine follow_agrees_coldLoad _ .auxiliary "disc" {} (Problem.admissible_disc h₁ h₁ h₁) ?_
  intro q hq
  simp only [List.mem_cons, List.not_mem_nil, or_false] at hq
  rcases hq with rfl | rfl
  · exact ⟨Problem.admissible_disc h₀ h₁ h₀, rfl, rfl⟩
  · exact ⟨Problem.admissible_disc h₁ h₀ h₁, rfl, rfl⟩

end Disc
end ConicProgram
