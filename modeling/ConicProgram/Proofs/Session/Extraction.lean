import ConicProgram.Proofs.Model.Heads
import ConicProgram.Proofs.Optimizer.Results
import ConicProgram.Proofs.Session.Launching

namespace ConicProgram

namespace Instance.Frames

variable {α : Type} [Scalar α] {s : Instance (ReferenceOptimizer α)} {p : Problem α}
  {mode : ConeMode} {m : Model α} (h : s.Frames p mode)
include h

theorem variableCount : s.variableCount = p.variableCount := by
  rw [h.layout]
  rfl

theorem linearRows : s.linearRows = p.partition.linearRows := by
  rw [h.layout]
  rfl

theorem realizedRow? (hp : p.Valid) {i : Nat} (hi : i < p.partition.linearRows) :
    s.realizedRow? i = some i := by
  have hr := hp.realizedRow?_loadedInstance mode i
  rw [if_pos (hi.trans_le (hp.linearRows_le_heldRows mode))] at hr
  rw [h.layout]
  exact hr

theorem scoped_model (hm : s.optimizer.model = some m) : m.Scoped := by
  have ⟨m', hm', _, _, hs⟩ := h.model
  cases hm.symm.trans hm'
  exact hs

-- Linear rows are held as they are stated, whatever numbers have been written to them.
theorem upright (hp : p.Valid) (hm : s.optimizer.model = some m) :
    m.Upright p.partition.linearRows := by
  obtain ⟨m', hm', hs, _⟩ := h.model
  cases hm.symm.trans hm'
  refine Model.Upright.of_senses (m := p.loaded mode) (fun i hi => ?_) hs.senses
  refine ⟨p.heldRow i, ?_, ?_⟩
  · rw [hp.getElem?_rows_loaded, if_pos (hi.trans_le (hp.linearRows_le_heldRows mode))]
  · rw [Problem.sense_heldRow, Problem.sense]
    split <;> decide

end Instance.Frames

namespace Session

variable {α ω : Type} [Scalar α] {engine : Engine α ω} {p : Problem α} {warm : Bool}
  {options : SolveOptions α}

section Conclude

variable {s : Instance (ReferenceOptimizer α)} {m : Model α} {o : ω} {log : List (Event α)}
  {record : SolveRecord α}

-- A record is made of what the solve has come to.
theorem solvesTo_of_conclude {kind : ProblemKind} (hm : s.optimizer.model = some m)
    (h : ((conclude (ReferenceOptimizer.operations engine) kind).perform ⟨s, o, log⟩).1 =
      .ok record) :
    ∃ solved t, m.SolvesTo engine s.optimizer.controls ⟨s.optimizer.forget, o, log⟩ solved ∧
      (ReferenceOptimizer.operations engine).solve.perform ⟨s.optimizer, o, log⟩ = (.ok (), t) ∧
      t.state.result = some solved := by
  cases hs : (ReferenceOptimizer.operations engine).solve.perform ⟨s.optimizer, o, log⟩
  case mk r t =>
  have hd := ReferenceOptimizer.solves_of_perform hm hs
  cases r
  case error e =>
    rw [conclude] at h
    cases e <;> rw [Action.perform_bind_of_error (Instance.perform_call hs)] at h <;> cases h
  case ok =>
    generalize ht : t.state = u at hd
    cases hd
    case delivered solved hd => exact ⟨solved, t, hd, rfl, by rw [ht]⟩

-- How the record of a continuous problem comes about: there is nothing to solve, or the engine has
-- answered, and the numbers of a solution are those of the answer that belong to the problem.
inductive Transcribes (engine : Engine α ω) (p : Problem α) (m : Model α) (controls : Controls α)
    (a : Assembled α) (o : ω) : SolveRecord α → ω → Prop
  | empty (columns : m.columnCount = 0) (rows : a.rhs = []) :
      Transcribes engine p m controls a o ⟨.optimal, some 0, some [], some [], false⟩ o
  | solved {reply o'} (asked : ¬(m.columnCount = 0 ∧ a.rhs = []))
      (answer : (engine (a.call m controls)).run o = (.ok reply, o'))
      (solution : reply.status = .solved ∨ reply.status = .almostSolved) :
      Transcribes engine p m controls a o ⟨.optimal, some reply.objective,
        some (reply.primal.take p.variableCount),
        some (reply.dual.take p.partition.linearRows), false⟩ o'
  | unsolved {reply o'} (asked : ¬(m.columnCount = 0 ∧ a.rhs = []))
      (answer : (engine (a.call m controls)).run o = (.ok reply, o'))
      (noSolution : reply.status ≠ .solved ∧ reply.status ≠ .almostSolved) :
      Transcribes engine p m controls a o
        (.withoutSolution (Ending.relaxed (.ofEngine reply.status)).status) o'

theorem transcribes_of_relaxes {a : Assembled α} {controls : Controls α} {r : Relaxation α} {o' : ω}
    (h : m.Relaxes engine controls a o r o') (hu : m.Upright p.partition.linearRows) :
    Transcribes engine p m controls a o ((Ending.relaxed r.outcome).record {
      status := r.outcome.status.code
      objective := if r.outcome = .solved then some r.objective else none
      primal := if r.outcome = .solved then some r.primal else none
      duals := if r.outcome = .solved then some (m.rowDuals r.dual) else none }
      p.variableCount p.partition.linearRows) o' := by
  cases h
  case empty hc hr =>
    have hd := hu.take_rowDuals []
    simp only [Ending.record, if_pos, Option.map_some, hd, List.take_nil]
    exact .empty hc hr
  case answered reply ha h =>
    by_cases hs : reply.status = .solved ∨ reply.status = .almostSolved
    case pos =>
      have ho : Outcome.ofEngine reply.status = .solved := by rcases hs with hs | hs <;> rw [hs] <;> rfl
      simp only [ho, Ending.record, if_pos, Option.map_some, hu.take_rowDuals]
      exact .solved ha h hs
    case neg =>
      have ho : Outcome.ofEngine reply.status ≠ .solved := by
        cases hr : reply.status <;> simp_all [Outcome.ofEngine]
      rw [Ending.record_of_ne_optimal (mt Ending.status_relaxed_eq_optimal_iff.mp ho)]
      exact .unsolved ha h (not_or.mp hs)

-- What a record says of a solve of the model `m` in the instance `s`, from what lay outside before
-- to what lies there afterwards.
structure Extracts (engine : Engine α ω) (p : Problem α) (s : Instance (ReferenceOptimizer α))
    (m : Model α) (o : ω) (log : List (Event α)) (record : SolveRecord α) (o' : ω) : Prop where
  infeasible   : record.infeasible = true ↔ record.status = .infeasible
  noSolution   : record.status ≠ .optimal →
    record.primal = none ∧ record.objective = none ∧ record.duals = none
  continuous   : p.isMixedInteger = false → ∃ a, m.assemble? m.columnBounds = some a ∧
    (∀ i < p.partition.linearRows, s.realizedRow? i = some i) ∧
    m.Heads a p.partition.linearRows ∧
    Transcribes engine p m s.optimizer.controls a o record o'
  mixedInteger : p.isMixedInteger → ∃ found t, (m.search engine s.optimizer.controls).perform
      ⟨s.optimizer.forget, o, log⟩ = (.ok found, t) ∧ t.outside = o' ∧
    record.status = (Ending.searched found.status).status ∧
    (record.status = .optimal → ∃ x v, found.incumbent = some x ∧ m.objectiveAt? x = some v ∧
      record.primal = some (x.take p.variableCount) ∧ record.objective = some v ∧
      record.duals = none)

omit [Scalar α] in
theorem noSolution_record {solved : Solved α} {e : Ending} {n k : Nat}
    (h : (e.record solved n k).status ≠ .optimal) :
    (e.record solved n k).primal = none ∧ (e.record solved n k).objective = none ∧
      (e.record solved n k).duals = none := by
  rw [Ending.status_record] at h
  rw [Ending.record_of_ne_optimal h]
  exact ⟨rfl, rfl, rfl⟩

variable {mode : ConeMode}

theorem extracts_of_relaxation [Unital α] {r d} (hf : s.Frames p mode) (hp : p.Valid)
    (hm : s.optimizer.model = some m) (hd : m.hasDiscrete = false)
    (hr : (m.relax engine s.optimizer.controls m.columnBounds).perform
      ⟨s.optimizer.forget, o, log⟩ = (.ok r, d)) :
    Extracts engine p s m o log ((Ending.relaxed r.outcome).record {
      status := r.outcome.status.code
      objective := if r.outcome = .solved then some r.objective else none
      primal := if r.outcome = .solved then some r.primal else none
      duals := if r.outcome = .solved then some (m.rowDuals r.dual) else none }
      p.variableCount p.partition.linearRows) d.outside where
  infeasible := by rw [Ending.infeasible_record, Ending.status_record]
  noSolution := noSolution_record
  continuous _ := by
    obtain ⟨a, ha, hra⟩ := Model.relaxes_of_perform hr
    have hu := hf.upright hp hm
    have hl : m.columnBounds.length ≤ m.columnCount := by
      simp [Model.columnBounds, Model.columnCount]
    obtain ⟨a', ha', hrep⟩ := (hf.scoped_model hm).exists_assemble? hl
    cases ha.symm.trans ha'
    exact ⟨a, ha, fun i hi => hf.realizedRow? hp hi, hrep.heads hu, transcribes_of_relaxes hra hu⟩
  mixedInteger h := by
    rw [← hf.hasDiscrete hp hm, hd] at h
    cases h

theorem extracts_of_search {found d} (hf : s.Frames p mode) (hp : p.Valid)
    (hm : s.optimizer.model = some m) (hd : m.hasDiscrete)
    (hs : (m.search engine s.optimizer.controls).perform ⟨s.optimizer.forget, o, log⟩ =
      (.ok found, d)) :
    Extracts engine p s m o log ((Ending.searched found.status).record
      ⟨found.status.code, found.incumbent.bind m.objectiveAt?, found.incumbent, none⟩
      p.variableCount p.partition.linearRows) d.outside where
  infeasible := by rw [Ending.infeasible_record, Ending.status_record]
  noSolution := noSolution_record
  continuous h := by
    rw [← hf.hasDiscrete hp hm, hd] at h
    cases h
  mixedInteger _ := by
    refine ⟨found, d, hs, rfl, Ending.status_record, fun ho => ?_⟩
    rw [Ending.status_record] at ho
    have ho := Ending.status_searched_eq_optimal_iff.mp ho
    have hrated := Model.rated_of_search hs
    have ⟨x, hx⟩ := Option.isSome_iff_exists.mp (hrated.present ho)
    have ⟨v, hv⟩ := hrated.value x hx
    refine ⟨x, v, hx, hv, ?_⟩
    rw [ho, hx]
    exact ⟨rfl, hv, rfl⟩

-- The record of a solve that is read from a framed instance.
theorem extracts_of_conclude [Unital α] (hf : s.Frames p mode) (hp : p.Valid)
    (hm : s.optimizer.model = some m)
    (h : ((conclude (ReferenceOptimizer.operations engine) (.ofMixedInteger
      p.isMixedInteger)).perform ⟨s, o, log⟩).1 = .ok record) :
    Extracts engine p s m o log record
      ((ReferenceOptimizer.solve engine).perform ⟨s.optimizer, o, log⟩).2.outside := by
  have ⟨solved, t, hsolves, hs, hr⟩ := solvesTo_of_conclude hm h
  have hrecord {e : Ending} (he : e.kind = .ofMixedInteger m.hasDiscrete)
      (hrep : ReferenceOptimizer.Solved.Reports solved e) :
      record = e.record solved p.variableCount p.partition.linearRows := by
    have hc := fst_perform_conclude_of_reports hs hr hrep
    rw [he, hf.hasDiscrete hp hm, hf.variableCount, hf.linearRows] at hc
    exact Except.ok.inj (h.symm.trans hc)
  cases hsolves
  case relaxation r d hd hrelax =>
    rw [hrecord (by rw [hd]; rfl) (ReferenceOptimizer.reports_relaxed r _),
      ReferenceOptimizer.outside_solve_of_continuous hm hd, hrelax]
    exact extracts_of_relaxation hf hp hm hd hrelax
  case search found d hd hsearch =>
    rw [hrecord (by rw [hd]; rfl) (ReferenceOptimizer.reports_searched
      (Model.rated_of_search hsearch) _),
      ReferenceOptimizer.outside_solve_of_discrete hm hd, hsearch]
    exact extracts_of_search hf hp hm hd hsearch

end Conclude

variable [Numeric α] [Unital α] {c d : Context α (Session α (ReferenceOptimizer α)) ω}
  {record : SolveRecord α}

-- The record of each solve that delivers one is made of what the engine has answered or the search
-- has found. The first rows that the engine is given are the linear rows of the optimizer, none of
-- them negated, and those are the linear rows of the problem.
theorem solve_extracts (hc : Reached engine c) (hi : p.Indexable) (warm : Bool)
    (options : SolveOptions α)
    (h : (solve (ReferenceOptimizer.operations engine) p warm options).perform c =
      (.ok record, d)) :
    ∃ s m log, (launch (ReferenceOptimizer.operations engine) p warm options).perform c =
        (.ok s, ⟨c.state, c.outside, log⟩) ∧ s.optimizer.model = some m ∧
      Extracts engine p s m c.outside log record d.outside := by
  cases hv : p.validate
  case error cause => cases (perform_solve_of_invalid hv c).symm.trans h
  case ok =>
    have hp := Problem.valid_of_validate hv
    have ⟨mode, s, log, hf, hl, _⟩ :=
      perform_launch hc.outlined hc.resets hv hi engine warm options
    have hfst := fst_solve_of_outlined hc.outlined hl
    have hout := outside_solve_of_launch hv (warmPlan_ne_fault hc.outlined hp engine warm) hl
    rw [h] at hfst hout
    cases hk : options.controlsFrom c.state.settings .standard
    case error e =>
      rw [hk] at hfst
      cases hfst
    case ok controls =>
      rw [hk] at hl hfst hout
      have ⟨m, hm, _⟩ := hf.model
      refine ⟨s, m, log, hl, hm, ?_⟩
      rw [show d.outside = _ from hout]
      exact extracts_of_conclude hf hp hm hfst.symm

omit [Unital α] in
-- A record is delivered wherever the optimizer succeeds.
theorem exists_record (hc : Reached engine c) (hi : p.Indexable) {s d t}
    (hl : (launch (ReferenceOptimizer.operations engine) p warm options).perform c = (.ok s, d))
    (hs : (ReferenceOptimizer.operations engine).solve.perform ⟨s.optimizer, d.outside, d.log⟩ =
      (.ok (), t)) :
    ∃ record d', (solve (ReferenceOptimizer.operations engine) p warm options).perform c =
      (.ok record, d') := by
  have hlaunched : Launched p
      ((launch (ReferenceOptimizer.operations engine) p warm options).perform c).1 :=
    ensures_launch (s := c.state) hc.outlined hi c.outside c.log
  rw [hl] at hlaunched
  have ⟨hp, mode, hf⟩ := hlaunched
  have hfst := fst_solve_of_outlined hc.outlined hl
  rcases fst_perform_conclude hf hp engine d.outside d.log with
    ⟨_, _, he, _⟩ | ⟨_, _, _, record, _, _, _, _, hr, _⟩
  · cases hs.symm.trans he
  · exact ⟨record, _, Prod.ext (hfst.trans hr) rfl⟩

section First

-- A solution with a number for each column and for each row.
def solution : EngineReply Float where
  status := .solved
  primal := [1, 2, 3, 4, 5]
  dual := [6, 7, 8, 9, 10]
  objective := 11

def solving : Engine Float Unit :=
  fun _ => pure (.ok solution)

theorem perform_solve_solving : ∃ record d,
    (solve (ReferenceOptimizer.operations solving) firstCall.problem false {}).perform
      ⟨{ settings := {} }, (), []⟩ = (.ok record, d) := by
  have ⟨s, d, hl, hm⟩ := perform_launch_firstCall solving
  have ⟨t, hs⟩ := perform_solve_firstCall solution (fun _ => rfl) d.log hm
  exact exists_record (reached_new solving {}) admissible_firstCall.indexable hl hs

-- Two of the columns are variables, and one of the rows is linear.
theorem solve_extracts_firstCall : ∃ record d s log,
    (solve (ReferenceOptimizer.operations solving) firstCall.problem false {}).perform
      ⟨{ settings := {} }, (), []⟩ = (.ok record, d) ∧
    (launch (ReferenceOptimizer.operations solving) firstCall.problem false {}).perform
      ⟨{ settings := {} }, (), []⟩ = (.ok s, ⟨{ settings := {} }, (), log⟩) ∧
    s.realizedRow? 0 = some 0 ∧
    record = ⟨.optimal, some 11, some [1, 2], some [6], false⟩ := by
  have ⟨record, d, h⟩ := perform_solve_solving
  have ⟨s, m, log, hl, hm, hr⟩ := solve_extracts (reached_new solving {})
    admissible_firstCall.indexable false {} h
  have ⟨a, _, hrow, _, ht⟩ := hr.continuous rfl
  refine ⟨record, d, s, log, h, hl, hrow 0 (by decide), ?_⟩
  cases ht
  case empty hcolumns _ =>
    have ⟨s', d', hl', hm'⟩ := perform_launch_firstCall solving
    cases hl.symm.trans hl'
    cases hm.symm.trans hm'
    exact absurd hcolumns (Nat.succ_ne_zero _)
  case solved reply _ _ answer =>
    cases Except.ok.inj (congrArg Prod.fst answer)
    rfl
  case unsolved reply _ hn answer =>
    cases Except.ok.inj (congrArg Prod.fst answer)
    exact absurd rfl hn.1

end First
end Session
end ConicProgram
