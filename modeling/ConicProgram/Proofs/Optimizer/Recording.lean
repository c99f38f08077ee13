import ConicProgram.Proofs.Model.System
import ConicProgram.Proofs.Optimizer.Ending

namespace ConicProgram

variable {α σ ω ε β γ : Type}

-- The same engine with a record of its calls.
def Engine.recorded (engine : Engine α ω) : Engine α (ω × List (EngineCall α)) :=
  fun call (outside, calls) =>
    let (reply, outside) := (engine call).run outside
    (reply, outside, calls ++ [call])

-- The points that are returned have a coordinate for each column of the matrix.
def Engine.Sized (engine : Engine α ω) : Prop :=
  ∀ call outside reply outside', (engine call).run outside = (.ok reply, outside') →
    reply.primal.length = call.matrix.cols

-- The call is one for a model of `n` columns.
structure EngineCall.Fits [Scalar α] (n : Nat) (call : EngineCall α) : Prop where
  objective : call.objective.length = n
  system    : Assembled.Fits n ⟨call.matrix, call.rhs, call.cones⟩

variable [Scalar α] {n : Nat}

section Called

variable {P : EngineCall α → Prop} {o o' o'' : ω × List (EngineCall α)}

-- What is true of each call from one time to another.
def Called (P : EngineCall α → Prop) (o o' : ω × List (EngineCall α)) : Prop :=
  ∃ calls, o'.2 = o.2 ++ calls ∧ ∀ call ∈ calls, P call

omit [Scalar α] in
theorem Called.refl (o : ω × List (EngineCall α)) : Called P o o :=
  ⟨[], (List.append_nil _).symm, List.forall_mem_nil _⟩

omit [Scalar α] in
theorem Called.trans (h : Called P o o') (h' : Called P o' o'') : Called P o o'' := by
  have ⟨calls, ho, hc⟩ := h
  have ⟨calls', ho', hc'⟩ := h'
  exact ⟨calls ++ calls', by rw [ho', ho, List.append_assoc],
    fun call hm => (List.mem_append.mp hm).elim (hc call) (hc' call)⟩

-- The calls from one time to another fit a model of `n` columns.
def Asked (n : Nat) (o o' : ω × List (EngineCall α)) : Prop :=
  ∃ calls, o'.2 = o.2 ++ calls ∧ ∀ call ∈ calls, call.Fits n

theorem Asked.refl (o : ω × List (EngineCall α)) : Asked n o o :=
  Called.refl o

theorem Asked.trans (h : Asked n o o') (h' : Asked n o' o'') : Asked n o o'' :=
  Called.trans h h'

end Called

namespace Action

variable {a : Action α σ (ω × List (EngineCall α)) ε β}
  {f : β → Action α σ (ω × List (EngineCall α)) ε γ} {q q' : β → Prop} {r : γ → Prop}

-- Wherever it is started, the action does not end in a fault, what comes of it is as it should be,
-- and the calls on the way fit a model of `n` columns.
def Asks (n : Nat) (a : Action α σ (ω × List (EngineCall α)) ε β) (q : β → Prop) : Prop :=
  ∀ c, (a.perform c).1.Meets q ∧ Asked n c.outside (a.perform c).2.outside

theorem asks_pure {b : β} (h : q b) :
    (pure b : Action α σ (ω × List (EngineCall α)) ε β).Asks n q :=
  fun c => ⟨h, .refl c.outside⟩

theorem asks_ofAttempt {t : Attempt ε β} (h : t.Meets q) :
    (ofAttempt t : Action α σ (ω × List (EngineCall α)) ε β).Asks n q := by
  intro c
  rw [perform_ofAttempt]
  exact ⟨h, .refl c.outside⟩

theorem asks_ofOption {o : Option β} {b : β} (h : o = some b) (hq : q b) :
    (ofOption o : Action α σ (ω × List (EngineCall α)) ε β).Asks n q :=
  asks_ofAttempt (Attempt.meets_ofOption h hq)

theorem asks_record (e : Event α) :
    (record e : Action α σ (ω × List (EngineCall α)) ε Unit).Asks n fun _ => True :=
  fun c => ⟨trivial, .refl c.outside⟩

theorem asks_state :
    (state : Action α σ (ω × List (EngineCall α)) ε σ).Asks n fun _ => True :=
  fun c => ⟨trivial, .refl c.outside⟩

theorem asks_modifyState (g : σ → σ) :
    (modifyState g : Action α σ (ω × List (EngineCall α)) ε Unit).Asks n fun _ => True :=
  fun c => ⟨trivial, .refl c.outside⟩

theorem Asks.bind (ha : a.Asks n q) (hf : ∀ b, q b → (f b).Asks n r) : (a >>= f).Asks n r := by
  intro c
  have ⟨hq, ho⟩ := ha c
  rw [perform_bind]
  cases hp : a.perform c
  case mk t d =>
  rw [hp] at hq ho
  rcases t with (_ | _) | b
  case error.fault => exact hq.elim
  case error.refused => exact ⟨trivial, ho⟩
  case ok =>
    have ⟨hr, ho'⟩ := hf b hq d
    exact ⟨hr, ho.trans ho'⟩

theorem Asks.of_perform (h : a.Asks n q) (hq : ∀ b c c', a.perform c = (.ok b, c') → q' b) :
    a.Asks n q' :=
  fun c => ⟨(h c).1.of_ok fun b hb => hq b c (a.perform c).2 (Prod.ext hb rfl), (h c).2⟩

end Action

variable {m : Model α} {engine : Engine α ω} {controls : Controls α} {box : List (Bounds α)}

theorem Engine.Sized.asks_recorded (he : engine.Sized) {call : EngineCall α} (h : call.Fits n) :
    (Action.ask (engine.recorded call) : Action α σ _ ε _).Asks n
      fun answer => ∀ reply, answer = .ok reply → reply.primal.length = n := by
  intro c
  refine ⟨fun reply hr => ?_, [call], rfl, List.forall_mem_singleton.mpr h⟩
  rw [← h.system.cols]
  exact he call c.outside.1 reply _ (Prod.ext hr rfl)

theorem Model.Closed.asks_relax (h : m.Closed) (he : engine.Sized)
    (hl : box.length = m.columnCount) :
    (m.relax engine.recorded controls box : Action α σ _ _ _).Asks m.columnCount
      fun r => r.primal.length = m.columnCount := by
  have ⟨a, ha, hf⟩ := h.toInside.exists_fits hl.le
  refine (Action.asks_ofOption (q := (· = a)) ha rfl).bind fun system hs => ?_
  rw [← hs] at hf
  split
  case isTrue hn => exact Action.asks_pure hn.1.symm
  case isFalse =>
    refine (he.asks_recorded ⟨h.objective, hf⟩).bind fun answer hr => ?_
    cases answer
    case error => exact Action.asks_ofAttempt trivial
    case ok reply => exact Action.asks_pure (hr reply rfl)

namespace Search

variable {discrete : List Nat} {s : Search α}

section Visit

variable (h : s.Boxed m) (hm : m.Closed) (hd : ∀ j ∈ discrete, j < m.columnCount)
  (hb : box.length = m.columnCount)
include h hm hd hb

theorem Boxed.asks_settle {r : Relaxation α} (hr : r.primal.length = m.columnCount) :
    (settle m controls discrete box r s : Action α σ (ω × List (EngineCall α)) _ _).Asks
      m.columnCount (Visit.Boxed m) := by
  intro c
  have ⟨fate, s', log, hs, hp⟩ := exists_settles hm hd hb hr controls s c
  rw [hp]
  exact ⟨hs.boxed hb h, .refl c.outside⟩

theorem Boxed.asks_visit (he : engine.Sized) :
    (visit m engine.recorded controls discrete box s : Action α σ _ _ _).Asks
      m.columnCount (Visit.Boxed m) := by
  unfold visit
  split
  case isTrue => exact Action.asks_pure h
  case isFalse =>
    refine (hm.asks_relax he hb).bind fun r hr => ?_
    split
    case h_1 => exact h.asks_settle hm hd hb hr
    case h_2 => exact Action.asks_pure h
    case h_3 =>
      split
      case isTrue => exact Action.asks_pure trivial
      case isFalse => exact Action.asks_pure h

end Visit

-- The induction is on the budget, node by node.
theorem Boxed.asks_explore (h : s.Boxed m) (hm : m.Closed) (he : engine.Sized)
    (hd : ∀ j ∈ discrete, j < m.columnCount) (budget : Nat) :
    (explore m engine.recorded controls discrete budget s : Action α σ _ _ _).Asks
      m.columnCount fun _ => True := by
  induction budget generalizing s
  case zero => unfold explore; split <;> exact Action.asks_pure trivial
  case succ budget hi =>
    unfold explore
    split
    case h_1 => exact Action.asks_pure trivial
    case h_2 box pending hp =>
      have ⟨hb, hs⟩ := h.next hp (s.nodes + 1)
      refine (hs.asks_visit hm hd hb he).bind fun v hv => ?_
      cases v
      case stop => exact Action.asks_pure trivial
      case go s' => exact hi hv

end Search

namespace Model.Closed

variable (h : m.Closed) (he : engine.Sized)
include h he

theorem asks_search : (m.search engine.recorded controls : Action α σ _ _ _).Asks
    m.columnCount (SearchResult.Rated m) :=
  ((Search.boxed_start m).asks_explore h he (fun _ => lt_of_mem_discreteColumns) _).of_perform
    fun _ _ _ => rated_of_search

theorem asks_solveDiscrete :
    (ReferenceOptimizer.solveDiscrete engine.recorded m controls).Asks m.columnCount
      fun _ => True := by
  refine (h.asks_search he).bind fun found hf => (Action.asks_record _).bind fun _ _ => ?_
  cases hi : found.incumbent
  case none => exact Action.asks_pure trivial
  case some x =>
    have ⟨v, hv⟩ := hf.value x hi
    refine Action.Asks.bind (q := fun _ => True) ?_ fun _ _ => Action.asks_pure trivial
    exact (Action.asks_ofOption (q := fun _ => True) hv trivial).bind fun _ _ =>
      Action.asks_pure trivial

theorem asks_solveContinuous :
    (ReferenceOptimizer.solveContinuous engine.recorded m controls).Asks m.columnCount
      fun _ => True := by
  have hl : m.columnBounds.length = m.columnCount := List.length_map _
  exact (h.asks_relax he hl).bind fun _ _ => Action.asks_pure trivial

end Model.Closed

end ConicProgram
