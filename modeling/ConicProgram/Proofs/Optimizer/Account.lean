import ConicProgram.Proofs.Optimizer.Nodes
import ConicProgram.Proofs.Optimizer.Splitting

namespace ConicProgram

namespace Search

section Transcript

variable {α ω : Type} [Scalar α] {m : Model α} {engine : Engine α ω} {controls : Controls α}
  {box : List (Bounds α)} {s : Search α} {o o' : ω × List (Except String (EngineReply α))}
  {fate : Fate α} {fates : List (Fate α)}

theorem Settles.answers_eq {discrete : List Nat} {r : Relaxation α} {s'}
    (h : Settles m controls discrete box s r fate s') :
    fate.answers = [.ok .solved] := by
  cases h <;> rfl

theorem outside_of_answers {answer} (h : m.Answers engine.transcribed controls box o answer o') :
    o'.2 = o.2 ++ [answer] := by
  have ⟨_, _, h⟩ := h
  cases h
  rfl

-- What is heard of a node is what the engine has answered.
theorem Decides.exists_answers {v} (h : Decides m engine.transcribed controls box s o fate v o') :
    ∃ answers, o'.2 = o.2 ++ answers ∧ EngineReply.outcomes answers = fate.answers := by
  cases h
  case empty => exact ⟨[], (List.append_nil _).symm, rfl⟩
  case refused ha => exact ⟨_, outside_of_answers ha, rfl⟩
  case infeasible ho ha =>
    exact ⟨_, outside_of_answers ha, by rw [EngineReply.outcomes_ok, ho, Fate.answers]⟩
  case solved ho hs ha =>
    exact ⟨_, outside_of_answers ha, by rw [EngineReply.outcomes_ok, ho, hs.answers_eq]⟩
  case abandoned ha => exact ⟨_, outside_of_answers ha, rfl⟩
  case stopped ha => exact ⟨_, outside_of_answers ha, rfl⟩

theorem Run.exists_answers {v} (h : Run m engine.transcribed controls s o fates v o') :
    ∃ answers, o'.2 = o.2 ++ answers ∧
      EngineReply.outcomes answers = fates.flatMap Fate.answers := by
  induction h
  case rest => exact ⟨[], (List.append_nil _).symm, rfl⟩
  case halt decides _ =>
    have ⟨answers, ho, ha⟩ := decides.exists_answers
    exact ⟨answers, ho, by rw [ha, List.flatMap_singleton]⟩
  case visit decides _ hi =>
    have ⟨answers, ho, ha⟩ := decides.exists_answers
    have ⟨answers', ho', ha'⟩ := hi
    refine ⟨answers ++ answers', by rw [ho', ho, List.append_assoc], ?_⟩
    rw [EngineReply.outcomes, List.map_append, List.flatMap_cons]
    exact congrArg₂ (· ++ ·) ha ha'

end Transcript

section Failure

variable {α ω : Type} [Scalar α] {m : Model α} {engine : Engine α ω} {controls : Controls α}
  {box : List (Bounds α)} {s : Search α} {o o' : ω} {fate : Fate α} {fates : List (Fate α)}
  {v : Attempt (OptimizerError α) (Visit α)} {e : Failure (OptimizerError α)}

theorem Decides.eq_error_iff (h : Decides m engine controls box s o fate v o') :
    v = .error e ↔ ∃ text, fate = .refused text ∧ e = .refused (.engine text) := by
  cases h
  case refused => simp [eq_comm]
  case solved hs _ => cases hs <;> simp
  all_goals simp

-- A run fails at a node that the engine refuses, and there is no node after it.
theorem Run.eq_error_iff (h : Run m engine controls s o fates v o') :
    v = .error e ↔ ∃ text, .refused text ∈ fates ∧ e = .refused (.engine text) := by
  induction h
  case rest => simp
  case halt decides _ => simp [decides.eq_error_iff, eq_comm]
  case visit decides _ hi =>
    rw [hi]
    refine exists_congr fun text => and_congr_left fun _ => ?_
    refine ⟨List.mem_cons_of_mem _, fun hm => (List.mem_cons.mp hm).resolve_left fun hf => ?_⟩
    cases decides.eq_error_iff.mpr ⟨text, hf.symm, rfl⟩

theorem Decides.eq_of_stop {status}
    (h : Decides m engine controls box s o fate (.ok (.stop status)) o') :
    s.nodes = 1 ∧ (status = .unbounded ∨ status = .rootUnsolved) ∧
      ∃ outcome, fate = .unresolved outcome := by
  cases h
  case stopped hroot _ =>
    refine ⟨hroot, ?_, _, rfl⟩
    split
    · exact .inl rfl
    · exact .inr rfl

-- Only at the root is a search stopped.
theorem Run.eq_of_stop {status} (h : Run m engine controls s o fates (.ok (.stop status)) o') :
    s.nodes = 0 ∧ (status = .unbounded ∨ status = .rootUnsolved) ∧
      ∃ outcome, fates = [.unresolved outcome] := by
  generalize hv : Except.ok (Visit.stop status) = v at h
  induction h
  case rest => cases hv
  case halt decides _ =>
    cases hv
    have ⟨hn, hs, outcome, hf⟩ := decides.eq_of_stop
    exact ⟨Nat.succ.inj hn, hs, outcome, by rw [hf]⟩
  case visit decides _ hi =>
    have ⟨hn, _⟩ := hi hv
    rw [decides.nodes_eq] at hn
    cases hn

end Failure
end Search

variable {K σ ω : Type} [Field K] [LinearOrder K] [FloorRing K] {m : Model K} {engine : Engine K ω}
  {controls : Controls K} {box : List (Bounds K)} {pending : List (List (Bounds K))}
  {s s' : Search K} {o o' : ω} {fate : Search.Fate K} {fates past : List (Search.Fate K)}

attribute [local instance] Scalar.exact

namespace Search

-- The point is the best of the integral ones that have been found at the nodes.
structure Best (m : Model K) (fates : List (Fate K)) (point : List K) (objective : K) : Prop where
  length   : point.length = m.columnCount
  integral : m.IntegralAt point
  value    : m.objectiveAt? point = some objective
  found    : .integral objective ∈ fates
  least    : ∀ v, .integral v ∈ fates → objective ≤ v

-- What a stage of a search has kept of the nodes visited by then.
structure Kept (m : Model K) (fates : List (Fate K)) (s : Search K) : Prop where
  nodes     : s.nodes = fates.length
  complete  : s.complete ↔ ∀ fate ∈ fates, fate.IsClosed
  incumbent : ∀ best, s.incumbent = some best → Best m fates best.point best.objective
  none      : s.incumbent = none → ∀ v, .integral v ∉ fates

theorem Best.concat {point : List K} {objective : K} (h : Best m past point objective)
    (hf : ∀ v, fate = .integral v → objective ≤ v) : Best m (past ++ [fate]) point objective where
  length := h.length
  integral := h.integral
  value := h.value
  found := List.mem_append_left _ h.found
  least v hv := by
    rcases List.mem_append.mp hv with hv | hv
    · exact h.least v hv
    · exact hf v (List.mem_singleton.mp hv).symm

namespace Kept

theorem start (m : Model K) : Kept m [] { pending := [m.columnBounds] } where
  nodes := rfl
  complete := by simp
  incumbent := nofun
  none _ _ := List.not_mem_nil

-- A node at which no integral point is found leaves the incumbent as it is.
theorem concat (h : Kept m past s) (hf : ∀ v, fate ≠ .integral v)
    (hn : s'.nodes = s.nodes + 1) (hi : s'.incumbent = s.incumbent)
    (hc : s'.complete ↔ s.complete ∧ fate.IsClosed) : Kept m (past ++ [fate]) s' where
  nodes := by rw [hn, h.nodes, List.length_append, List.length_singleton]
  complete := by simp [hc, h.complete, or_imp, forall_and]
  incumbent best hb := (h.incumbent best (hi ▸ hb)).concat fun v hv => absurd hv (hf v)
  none hb v hv := by
    rcases List.mem_append.mp hv with hv | hv
    · exact h.none (hi ▸ hb) v hv
    · exact hf v (List.mem_singleton.mp hv).symm

-- At another node the integral point is compared with the best one there is.
theorem offered {x point : List K} {objective : K} (h : Kept m past s)
    (hp : integralPoint? m m.discreteColumns x = some point)
    (hv : m.objectiveAt? point = some objective) :
    Kept m (past ++ [.integral objective])
      (Search.offered { s with pending, nodes := s.nodes + 1 } ⟨objective, point⟩) := by
  have hn : s.nodes + 1 = (past ++ [Fate.integral objective]).length := by
    rw [h.nodes, List.length_append, List.length_singleton]
  have hc : s.complete ↔ ∀ fate ∈ past ++ [Fate.integral objective], fate.IsClosed := by
    simp [h.complete, or_imp, forall_and, Fate.IsClosed]
  unfold Search.offered
  split
  case isTrue hi =>
    obtain ⟨hl, hint⟩ := integralAt_of_integralPoint? hp
    -- The new point is better than the best one before, if there is one.
    have hleast v (hm : .integral v ∈ past) : objective ≤ v := by
      cases hb : s.incumbent
      case none => exact absurd hm (h.none hb v)
      case some best =>
        have hlt : objective < best.objective := by simpa [improves, hb] using hi
        exact hlt.le.trans ((h.incumbent best hb).least v hm)
    refine ⟨hn, hc, fun best hb => ?_, fun hb => absurd hb (Option.some_ne_none _)⟩
    cases hb
    refine ⟨hl, hint, hv, List.mem_append_right _ (List.mem_singleton.mpr rfl), fun v hm => ?_⟩
    rcases List.mem_append.mp hm with hm | hm
    · exact hleast v hm
    · cases List.mem_singleton.mp hm
      exact le_rfl
  case isFalse hi =>
    obtain ⟨best, hb, hle⟩ := exists_incumbent_of_not_improves hi
    refine ⟨hn, hc, fun best' hb' => (h.incumbent best' hb').concat fun v hv => ?_, fun hnone => ?_⟩
    · cases hv
      cases hb.symm.trans hb'
      exact hle
    · cases hb.symm.trans hnone

theorem decides (h : Kept m past s)
    (hd : Decides m engine controls box { s with pending, nodes := s.nodes + 1 } o fate
      (.ok (.go s')) o') : Kept m (past ++ [fate]) s' := by
  cases hd
  case empty => exact h.concat nofun rfl rfl (by simp [Fate.IsClosed])
  case infeasible => exact h.concat nofun rfl rfl (by simp [Fate.IsClosed])
  case abandoned => exact h.concat nofun rfl rfl (by simp [Fate.IsClosed])
  case solved hs _ =>
    cases hs
    case bounded => exact h.concat nofun rfl rfl (by simp [Fate.IsClosed])
    case split => exact h.concat nofun rfl rfl (by simp [Fate.IsClosed])
    case integral hp hv => exact h.offered hp hv

theorem run (h : Kept m past s) (hr : Run m engine controls s o fates (.ok (.go s')) o') :
    Kept m (past ++ fates) s' := by
  generalize hv : Except.ok (Visit.go s') = v at hr
  induction hr generalizing past
  case rest =>
    cases hv
    rwa [List.append_nil]
  case halt ends => exact absurd hv.symm (ends s')
  case visit hd _ hi =>
    rw [List.append_cons]
    exact hi (h.decides hd) hv

end Kept
end Search

-- What is returned after nodes with these fates if these boxes are left.
structure SearchResult.Accounts (m : Model K) (fates : List (Search.Fate K))
    (left : List (List (Bounds K))) (found : SearchResult K) : Prop where
  nodes     : found.nodes = fates.length
  decided   : found.status = .optimal ∨ found.status = .infeasible ↔
    left = [] ∧ ∀ fate ∈ fates, fate.IsClosed
  undecided : ¬(left = [] ∧ ∀ fate ∈ fates, fate.IsClosed) →
    found.status = .solution ∨ found.status = .noSolutionFound ∨
      found.status = .unbounded ∨ found.status = .rootUnsolved
  present   : found.incumbent.isSome ↔ found.status = .optimal ∨ found.status = .solution
  incumbent : ∀ x, found.incumbent = some x → ∃ v, Search.Best m fates x v

namespace Search

-- Where a search has come to another stage, it returns what it has kept.
theorem Kept.accounts (h : Kept m fates s) :
    (Visit.result fates.length (.go s)).Accounts m fates s.pending := by
  have hc : (s.complete && s.pending.isEmpty) = true ↔
      s.pending = [] ∧ ∀ fate ∈ fates, fate.IsClosed := by
    rw [Bool.and_eq_true, h.complete, List.isEmpty_iff, and_comm]
  refine ⟨h.nodes, (result_decided_iff _).trans hc, fun ho => ?_, result_isSome_iff _, ?_⟩
  · exact (result_undecided (mt hc.mp ho)).imp_right .inl
  · intro x hx
    have ⟨best, hb, hp⟩ := Option.map_eq_some_iff.mp hx
    exact ⟨_, hp ▸ h.incumbent best hb⟩

theorem accounts_of_stop {status : DiscreteStatus} {outcome : Outcome}
    (hs : status = .unbounded ∨ status = .rootUnsolved) :
    (Visit.result 1 (.stop status : Visit K)).Accounts m [.unresolved outcome] [] where
  nodes := rfl
  decided := by rcases hs with rfl | rfl <;> simp [Visit.result, Fate.IsClosed]
  undecided _ := .inr (.inr hs)
  present := by rcases hs with rfl | rfl <;> simp [Visit.result]
  incumbent := nofun

-- A run from the root can be accounted for wherever it has come to an end.
theorem Run.accounts {last : Visit K}
    (h : Run m engine controls { pending := [m.columnBounds] } o fates (.ok last) o') :
    (last.result fates.length).Accounts m fates last.left := by
  cases last
  case go s => exact ((Kept.start m).run h).accounts
  case stop status =>
    have ⟨_, hs, outcome, hf⟩ := h.eq_of_stop
    rw [hf]
    exact accounts_of_stop hs

-- What is known of the end of a search that has visited nodes with these fates and has been given
-- these answers.
structure Account (m : Model K) (controls : Controls K) (fates : List (Fate K))
    (answers : List (Except String (EngineReply K))) (v : Attempt (OptimizerError K) (Visit K))
    (r : Attempt (OptimizerError K) (SearchResult K)) : Prop where
  visited  : fates.length ≤ controls.maxNodes.toNat
  -- The count of the nodes fits in the word that the limit is written in.
  counted  : fates.length < UInt32.size
  asked    : answers.length ≤ controls.maxNodes.toNat
  answered : EngineReply.outcomes answers = fates.flatMap Fate.answers
  failed   : ∀ e, r = .error e ↔ ∃ text, .error text ∈ answers ∧ e = .refused (.engine text)
  limited  : ∀ last, v = .ok last → last.left ≠ [] → fates.length = controls.maxNodes.toNat
  found    : ∀ found, r = .ok found → ∃ last, v = .ok last ∧ found.Accounts m fates last.left

end Search

-- Whatever an engine answers, the search for an integral point ends within its limit of nodes, it
-- fails only where the engine does, and what it returns can be accounted for by the nodes visited.
theorem Model.search_accounts (hm : m.Closed) (hd : m.hasDiscrete) (he : engine.Sized)
    {c d : Context K σ (ω × List (Except String (EngineReply K)))} {r}
    (h : (m.search engine.transcribed controls).perform c = (r, d)) :
    ∃ fates answers v,
      Search.Run m engine.transcribed controls { pending := [m.columnBounds] } c.outside fates v
        d.outside ∧
      d.outside.2 = c.outside.2 ++ answers ∧ Search.Account m controls fates answers v r := by
  have hn : m.columnCount ≠ 0 := by
    obtain ⟨column, hc, _⟩ := List.any_eq_true.mp hd
    exact (List.length_pos_of_mem hc).ne'
  obtain ⟨fates, v, _, hr, hf, hl, hlimit⟩ := (Search.boxed_start m).exists_run hm hn
    he.transcribed controls controls.maxNodes.toNat c
  cases h.symm.trans hf
  obtain ⟨answers, ho, ha⟩ := hr.exists_answers
  refine ⟨fates, answers, v, hr, ho, hl, hl.trans_lt controls.maxNodes.toNat_lt_size, ?_, ha, ?_,
    hlimit, ?_⟩
  case refine_1 =>
    have hlen := Search.Fate.length_flatMap_answers_le fates
    rw [← ha, EngineReply.outcomes, List.length_map] at hlen
    exact hlen.trans hl
  case refine_2 =>
    intro e
    have hmap : v.map (Search.Visit.result fates.length) = .error e ↔ v = .error e := by
      cases v <;> simp [Except.map]
    have htext (text : String) : .refused text ∈ fates ↔ .error text ∈ answers := by
      rw [← EngineReply.mem_outcomes_error_iff, ha, List.mem_flatMap]
      simp [Search.Fate.error_mem_answers_iff]
    rw [Nat.zero_add, hmap, hr.eq_error_iff]
    simp only [htext]
  case refine_3 =>
    intro found hfound
    cases v
    case error => cases hfound
    case ok last =>
      cases hfound
      exact ⟨last, rfl, (Nat.zero_add fates.length).symm ▸ hr.accounts⟩

section Wavering

-- The first answer is a point between two integers, and from then on there is none.
def Engine.wavering : Engine ℚ Nat :=
  fun call asked =>
    (if asked = 0 then .ok ⟨.solved, List.replicate call.matrix.cols (3 / 2), [], -3 / 2⟩
      else .error "out of reach", asked + 1)

theorem Engine.sized_wavering : wavering.Sized := by
  intro call asked reply _ h
  have hr : (wavering call asked).1 = .ok reply := congrArg Prod.fst h
  unfold wavering at hr
  split at hr <;> cases hr
  exact List.length_replicate

theorem Model.capped_closed : capped.Closed where
  toInside := capped_scoped.toInside
  objective := rfl

def Controls.wavering : Controls ℚ :=
  { Controls.capped with maxNodes := 3 }

theorem Model.search_accounts_wavering :
    capped.Closed ∧ capped.hasDiscrete ∧ Engine.wavering.Sized ∧
      ∃ r d, (capped.search Engine.wavering.transcribed .wavering).perform ⟨(), (0, []), []⟩ =
          (r, d) ∧
        ∃ fates answers v,
          Search.Run .capped Engine.wavering.transcribed .wavering
            { pending := [capped.columnBounds] } (0, []) fates v d.outside ∧
          d.outside.2 = [] ++ answers ∧ Search.Account .capped .wavering fates answers v r := by
  refine ⟨capped_closed, rfl, Engine.sized_wavering, ?_⟩
  cases h : (capped.search Engine.wavering.transcribed .wavering).perform ⟨(), (0, []), []⟩
  case mk r d => exact ⟨r, d, rfl, search_accounts capped_closed rfl Engine.sized_wavering h⟩

end Wavering
end ConicProgram
