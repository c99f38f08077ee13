import ConicProgram.Proofs.Optimizer.Recording
import ConicProgram.Proofs.Optimizer.Results

namespace ConicProgram

variable {α σ ω : Type}

-- The same engine with a record of its answers.
def Engine.transcribed (engine : Engine α ω) :
    Engine α (ω × List (Except String (EngineReply α))) :=
  fun call (outside, answers) =>
    let (answer, outside) := (engine call).run outside
    (answer, outside, answers ++ [answer])

theorem Engine.Sized.transcribed {engine : Engine α ω} (he : engine.Sized) :
    engine.transcribed.Sized := by
  intro call o reply o' h
  have hr : ((engine call).run o.1).1 = .ok reply := congrArg Prod.fst h
  exact he call o.1 reply _ (Prod.ext hr rfl)

def EngineReply.relaxation (reply : EngineReply α) : Relaxation α where
  outcome := .ofEngine reply.status
  primal := reply.primal
  dual := reply.dual
  objective := reply.objective

-- What an answer makes of a relaxation.
def Relaxation.ofAnswer :
    Except String (EngineReply α) → Attempt (OptimizerError α) (Relaxation α)
  | .error text => .error (.refused (.engine text))
  | .ok reply => .ok reply.relaxation

def EngineReply.outcomes (answers : List (Except String (EngineReply α))) :
    List (Except String Outcome) :=
  answers.map fun answer => answer.map fun reply => reply.relaxation.outcome

theorem EngineReply.outcomes_ok (reply : EngineReply α) :
    outcomes [.ok reply] = [.ok reply.relaxation.outcome] :=
  rfl

theorem EngineReply.mem_outcomes_error_iff {answers : List (Except String (EngineReply α))}
    {text : String} : .error text ∈ outcomes answers ↔ .error text ∈ answers := by
  have h (answer : Except String (EngineReply α)) :
      (answer.map fun reply => reply.relaxation.outcome) = .error text ↔ answer = .error text := by
    cases answer <;> simp [Except.map]
  simp [outcomes, h]

variable [Scalar α] {m : Model α} {engine : Engine α ω} {controls : Controls α}
  {box : List (Bounds α)}

section Answer

variable {o o' : ω} {answer : Except String (EngineReply α)} {c : Context α σ ω}

-- What the engine answers when it is asked about a box, and what lies outside then.
def Model.Answers (m : Model α) (engine : Engine α ω) (controls : Controls α)
    (box : List (Bounds α)) (o : ω) (answer : Except String (EngineReply α)) (o' : ω) : Prop :=
  ∃ a, m.assemble? box = some a ∧ (engine (a.call m controls)).run o = (answer, o')

theorem Model.Answers.sized (ha : m.Inside) (he : engine.Sized) (hl : box.length = m.columnCount)
    {reply : EngineReply α} (h : m.Answers engine controls box o (.ok reply) o') :
    reply.relaxation.primal.length = m.columnCount := by
  have ⟨a, ha', hf⟩ := ha.exists_fits hl.le
  have ⟨b, hb, hr⟩ := h
  cases ha'.symm.trans hb
  exact (he _ o reply o' hr).trans hf.cols

-- A model that has columns is never solved without the engine.
theorem Model.exists_answer (h : m.Inside) (hn : m.columnCount ≠ 0)
    (hl : box.length = m.columnCount) (engine : Engine α ω) (controls : Controls α)
    (c : Context α σ ω) :
    ∃ answer o', m.Answers engine controls box c.outside answer o' ∧
      (m.relax engine controls box).perform c =
        (Relaxation.ofAnswer answer, { c with outside := o' }) := by
  have ⟨a, ha, _⟩ := h.exists_fits hl.le
  have ho : (Action.ofOption (m.assemble? box) : Action α σ ω (OptimizerError α) _).perform c =
      (.ok a, c) := by
    rw [Action.perform_ofOption, ha]
    rfl
  cases hq : (engine (a.call m controls)).run c.outside
  case mk answer o' =>
  have hask : (Action.ask (engine (a.call m controls)) :
      Action α σ ω (OptimizerError α) _).perform c = (.ok answer, { c with outside := o' }) := by
    rw [Action.perform_ask, hq]
  refine ⟨answer, o', ⟨a, ha, hq⟩, ?_⟩
  rw [relax, Action.perform_bind_of_ok ho, if_neg fun h => hn h.1]
  refine (Action.perform_bind_of_ok hask).trans ?_
  cases answer <;> rfl

end Answer

namespace Search

-- What becomes of a node with the given box, what the visit ends with and what lies outside then.
inductive Decides (m : Model α) (engine : Engine α ω) (controls : Controls α)
    (box : List (Bounds α)) (s : Search α) (o : ω) :
    Fate α → Attempt (OptimizerError α) (Visit α) → ω → Prop
  | empty (vacant : isEmptyBox box controls.integrality) :
    Decides m engine controls box s o .empty (.ok (.go s)) o
  | refused {text o'} (room : ¬isEmptyBox box controls.integrality)
      (answer : m.Answers engine controls box o (.error text) o') :
    Decides m engine controls box s o (.refused text) (.error (.refused (.engine text))) o'
  | infeasible {reply o'} (room : ¬isEmptyBox box controls.integrality)
      (answer : m.Answers engine controls box o (.ok reply) o')
      (outcome : reply.relaxation.outcome = .infeasible) :
    Decides m engine controls box s o .infeasible (.ok (.go s)) o'
  | solved {reply o' fate s'} (room : ¬isEmptyBox box controls.integrality)
      (answer : m.Answers engine controls box o (.ok reply) o')
      (outcome : reply.relaxation.outcome = .solved)
      (settles : Settles m controls m.discreteColumns box s reply.relaxation fate s') :
    Decides m engine controls box s o fate (.ok (.go s')) o'
  | abandoned {reply o'} (room : ¬isEmptyBox box controls.integrality)
      (answer : m.Answers engine controls box o (.ok reply) o')
      (unsolved : reply.relaxation.outcome ≠ .solved)
      (undecided : reply.relaxation.outcome ≠ .infeasible) (later : s.nodes ≠ 1) :
    Decides m engine controls box s o (.unresolved reply.relaxation.outcome)
      (.ok (.go { s with complete := false })) o'
  | stopped {reply o'} (room : ¬isEmptyBox box controls.integrality)
      (answer : m.Answers engine controls box o (.ok reply) o')
      (unsolved : reply.relaxation.outcome ≠ .solved)
      (undecided : reply.relaxation.outcome ≠ .infeasible) (root : s.nodes = 1) :
    Decides m engine controls box s o (.unresolved reply.relaxation.outcome)
      (.ok (.stop (if reply.relaxation.outcome = .unbounded then .unbounded else .rootUnsolved))) o'

section Visits

variable {s : Search α}

theorem exists_decides (hm : m.Closed) (hn : m.columnCount ≠ 0) (he : engine.Sized)
    (hb : box.length = m.columnCount) (controls : Controls α) (s : Search α)
    (c : Context α σ ω) :
    ∃ fate v d, Decides m engine controls box s c.outside fate v d.outside ∧
      (visit m engine controls m.discreteColumns box s).perform c = (v, d) := by
  unfold visit
  split
  case isTrue h => exact ⟨_, _, c, .empty h, rfl⟩
  case isFalse h =>
    have ⟨answer, o', ha, hr⟩ := m.exists_answer hm.toInside hn hb engine controls c
    cases answer
    case error text => exact ⟨_, _, _, .refused h ha, Action.perform_bind_of_error hr⟩
    case ok reply =>
      rw [Action.perform_bind_of_ok hr]
      split
      case h_1 ho =>
        have ⟨fate, s', log, hs, hr⟩ := exists_settles hm (fun _ => Model.lt_of_mem_discreteColumns) hb
          (ha.sized hm.toInside he hb) controls s { c with outside := o' }
        exact ⟨_, _, _, .solved h ha ho hs, hr⟩
      case h_2 ho => exact ⟨_, _, _, .infeasible h ha ho, rfl⟩
      case h_3 hs hi =>
        split
        case isTrue hroot => exact ⟨_, _, _, .stopped h ha hs hi hroot, rfl⟩
        case isFalse hlater => exact ⟨_, _, _, .abandoned h ha hs hi hlater, rfl⟩

theorem Decides.boxed {o o' fate s'} (h : Decides m engine controls box s o fate (.ok (.go s')) o')
    (hb : box.length = m.columnCount) (hs : s.Boxed m) : s'.Boxed m := by
  cases h
  case empty => exact hs
  case infeasible => exact hs
  case solved settles _ => exact settles.boxed hb hs
  case abandoned => exact hs

theorem Decides.nodes_eq {o o' fate s'}
    (h : Decides m engine controls box s o fate (.ok (.go s')) o') : s'.nodes = s.nodes := by
  cases h
  case empty => rfl
  case infeasible => rfl
  case solved settles _ => exact settles.nodes_eq
  case abandoned => rfl

end Visits

-- A run of visits from a stage of a search on, with the fates of the nodes in their order, up to
-- another stage or to a visit that ends the search.
inductive Run (m : Model α) (engine : Engine α ω) (controls : Controls α) :
    Search α → ω → List (Fate α) → Attempt (OptimizerError α) (Visit α) → ω → Prop
  | rest {s o} : Run m engine controls s o [] (.ok (.go s)) o
  | halt {s o box pending fate v o'} (next : s.pending = box :: pending)
      (decides : Decides m engine controls box { s with pending, nodes := s.nodes + 1 } o fate v o')
      (ends : ∀ s', v ≠ .ok (.go s')) :
    Run m engine controls s o [fate] v o'
  | visit {s o box pending fate s' o' fates v o''} (next : s.pending = box :: pending)
      (decides : Decides m engine controls box { s with pending, nodes := s.nodes + 1 } o fate
        (.ok (.go s')) o')
      (run : Run m engine controls s' o' fates v o'') :
    Run m engine controls s o (fate :: fates) v o''

namespace Visit

def left : Visit α → List (List (Bounds α))
  | stop _ => []
  | go s => s.pending

-- What is returned after so many nodes. A search with boxes left is not complete.
def result (nodes : Nat) : Visit α → SearchResult α
  | stop status => { status, incumbent := none, nodes }
  | go s => { s with complete := s.complete && s.pending.isEmpty }.result

omit [Scalar α] in
theorem result_of_pending_eq_nil {s : Search α} {nodes : Nat} (h : s.pending = []) :
    (go s).result nodes = s.result := by
  simp [result, Search.result, h]

omit [Scalar α] in
theorem result_of_pending_eq_cons {s : Search α} {nodes : Nat} {box pending}
    (h : s.pending = box :: pending) :
    (go s).result nodes = { s with complete := false }.result := by
  simp [result, h]

end Visit

-- An exploration is a run that goes on until no box is left or the budget is used up.
theorem Boxed.exists_run {s : Search α} (h : s.Boxed m) (hm : m.Closed) (hn : m.columnCount ≠ 0)
    (he : engine.Sized) (controls : Controls α) (budget : Nat) (c : Context α σ ω) :
    ∃ fates v d, Run m engine controls s c.outside fates v d.outside ∧
      (explore m engine controls m.discreteColumns budget s).perform c =
        (v.map (Visit.result (s.nodes + fates.length)), d) ∧
      fates.length ≤ budget ∧ ∀ last, v = .ok last → last.left ≠ [] → fates.length = budget := by
  induction budget generalizing s c
  case zero =>
    refine ⟨[], _, c, .rest, ?_, le_rfl, fun _ _ _ => rfl⟩
    unfold explore
    split
    case h_1 hp => rw [Except.map, Visit.result_of_pending_eq_nil hp, Action.perform_pure]
    case h_2 hp => rw [Except.map, Visit.result_of_pending_eq_cons hp, Action.perform_pure]
  case succ budget hi =>
    unfold explore
    split
    case h_1 hp =>
      refine ⟨[], _, c, .rest, ?_, Nat.zero_le _, fun _ hv hl => ?_⟩
      · rw [Except.map, Visit.result_of_pending_eq_nil hp, Action.perform_pure]
      · cases hv
        exact absurd hp hl
    case h_2 box pending hp =>
      have ⟨hb, hs⟩ := h.next hp (s.nodes + 1)
      have ⟨fate, v, d, hd, hv⟩ := exists_decides hm hn he hb controls
        { s with pending, nodes := s.nodes + 1 } c
      rcases v with e | status | s'
      case error =>
        exact ⟨[fate], _, d, .halt hp hd nofun, Action.perform_bind_of_error hv, by simp, nofun⟩
      case ok.stop =>
        refine ⟨[fate], _, d, .halt hp hd nofun, Action.perform_bind_of_ok hv, by simp, ?_⟩
        intro _ hv hl
        cases hv
        exact absurd rfl hl
      case ok.go =>
        have ⟨fates, v, d', hr, hf, hl, hf'⟩ := hi (hd.boxed hb hs) d
        rw [hd.nodes_eq, Nat.add_assoc, Nat.add_comm 1] at hf
        refine ⟨fate :: fates, v, d', .visit hp hd hr, ?_, Nat.succ_le_succ hl, ?_⟩
        · exact (Action.perform_bind_of_ok hv).trans hf
        · exact fun last hv hleft => congrArg (· + 1) (hf' last hv hleft)

end Search
end ConicProgram
