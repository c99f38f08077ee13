import ConicProgram.Proofs.Optimizer.Operations
import ConicProgram.Proofs.Optimizer.Results

namespace ConicProgram

section Reaching

variable {α : Type} [Scalar α]

-- What the operation is given is not turned down before it gets to the model. An edit that then
-- fails has reached the model too, and so has one that turns out to change nothing.
def Operation.Reaches : Operation α → Prop
  | load d => ∃ m, Model.ofLoadData d = .ok m
  | addRows d => Model.checkRowData d = .ok ()
  | changeObjective cols values => cols.length = values.length
  | changeCoefficients rows cols values =>
    rows.length = cols.length ∧ cols.length = values.length
  | changeRhs rows values => rows.length = values.length
  | changeKinds cols kinds => cols.length = kinds.length
  | addColumns _ | addCone _ | setObjective _ | solve => True
  | setControl _ _ | resetControls | primal | duals => False

end Reaching

namespace ReferenceOptimizer

variable {α ω β : Type} {c : Context α (ReferenceOptimizer α) ω}

section Editing

variable {edit : Model α → Attempt (OptimizerError α) β × Model α}

theorem result_editing (edit : Model α → Attempt (OptimizerError α) β × Model α) (c) :
    ((editing edit : Call α ω β).perform c).2.state.result = none := by
  rw [perform_editing]
  split <;> rfl

theorem result_replacing (edit : Model α → Attempt (OptimizerError α) (β × Model α)) (c) :
    ((replacing edit : Call α ω β).perform c).2.state.result = none :=
  result_editing _ c

theorem result_discard {a : Call α ω β} (h : (a.perform c).2.state.result = none) :
    ((do let _ ← a : Call α ω Unit).perform c).2.state.result = none := by
  rw [Action.perform_bind]
  split <;> simp_all

theorem result_writes {part : String} {agree : Bool} (h : agree) :
    ((do checkLengths part agree; editing edit : Call α ω β).perform c).2.state.result = none := by
  rw [h]
  exact result_editing edit c

theorem keeps_writes {part : String} {agree : Bool} (h : agree ≠ true) :
    (do checkLengths part agree; editing edit : Call α ω β).Keeps fun s => (s.model, s.result) := by
  rw [Bool.eq_false_iff.mpr h]
  exact fun _ => rfl

end Editing

variable [Scalar α] {engine : Engine α ω} {start : Context α (ReferenceOptimizer α) ω}
  {operation : Operation α} {past : List (Operation α)} {m : Model α} {solved : Solved α}

theorem keeps_load {d : LoadData α} (h : ∀ m, Model.ofLoadData d ≠ .ok m) {τ : Type}
    {f : ReferenceOptimizer α → τ} : (load d : Call α ω Unit).Keeps f := by
  intro c
  cases hd : Model.ofLoadData d
  case error e => rw [load, hd, Action.perform_bind_of_error (Action.perform_ofAttempt _)]
  case ok m => exact absurd hd (h m)

theorem keeps_addRows {d : RowData α} (h : Model.checkRowData d ≠ .ok ()) {τ : Type}
    {f : ReferenceOptimizer α → τ} : (addRows d : Call α ω Span).Keeps f := by
  intro c
  cases hd : Model.checkRowData d
  case error e => rw [addRows, hd, Action.perform_bind_of_error (Action.perform_ofExcept _)]
  case ok => exact absurd hd h

theorem keeps_of_not_reaches (h : ¬operation.Reaches) :
    (operation.run (operations engine)).Keeps fun s => (s.model, s.result) := by
  cases operation
  case load d => exact keeps_load fun m hd => h ⟨m, hd⟩
  case addRows d => exact (keeps_addRows h).bind fun _ => Action.keeps_pure _
  case changeObjective cols values => exact keeps_writes (by simpa [Operation.Reaches] using h)
  case changeCoefficients rows cols values =>
    exact keeps_writes (by simpa [Operation.Reaches] using h)
  case changeRhs rows values => exact keeps_writes (by simpa [Operation.Reaches] using h)
  case changeKinds cols kinds => exact keeps_writes (by simpa [Operation.Reaches] using h)
  case setControl name value => exact keeps_setControl (fun _ _ => rfl) name value
  case resetControls => exact fun _ => rfl
  case primal => exact (keeps_reading _).bind fun _ => Action.keeps_pure _
  case duals => exact (keeps_reading _).bind fun _ => Action.keeps_pure _
  all_goals exact absurd trivial h

theorem result_load {d : LoadData α} (h : Model.ofLoadData d = .ok m) :
    ((load d : Call α ω Unit).perform c).2.state.result = none := by
  have hl := Model.meets_ofLoadData d
  rw [h] at hl
  have ⟨_, entries, he⟩ := hl
  have ⟨_, hp⟩ := yields_load (s := c.state) h he c.outside c.log
  rw [show (load d).perform c = _ from hp]
  rfl

-- A solve has a result of its own.
theorem result_of_reaches (h : operation.Reaches) (hs : operation ≠ .solve) :
    ((operation.run (operations engine)).perform c).2.state.result = none := by
  cases operation
  case load d =>
    have ⟨_, hd⟩ := h
    exact result_load hd
  case addColumns bounds => exact result_discard (a := addColumns bounds) (result_replacing _ c)
  case addRows d =>
    refine result_discard (a := addRows d) ?_
    rw [addRows, show Model.checkRowData d = .ok () from h]
    exact result_replacing _ c
  case addCone k => exact result_discard (a := addCone k) (result_replacing _ c)
  case setObjective coefficients => exact result_replacing _ c
  case changeObjective cols values => exact result_writes (by simpa [Operation.Reaches] using h)
  case changeCoefficients rows cols values => exact result_writes (by simpa [Operation.Reaches] using h)
  case changeRhs rows values => exact result_writes (by simpa [Operation.Reaches] using h)
  case changeKinds cols kinds => exact result_writes (by simpa [Operation.Reaches] using h)
  case solve => exact absurd rfl hs
  all_goals exact h.elim

-- A solve from `c` on succeeds on the loaded model, with these numbers for it.
structure Delivers (engine : Engine α ω) (c : Context α (ReferenceOptimizer α) ω) (m : Model α)
    (solved : Solved α) : Prop where
  loaded   : c.state.model = some m
  succeeds : ((solve engine).perform c).1 = .ok ()
  solves   : m.SolvesTo engine c.state.controls { c with state := c.state.forget } solved

theorem result_solve_iff :
    ((solve engine).perform c).2.state.result = some solved ↔ ∃ m, Delivers engine c m solved := by
  rcases c with ⟨s, o, log⟩
  cases hm : s.model
  case none =>
    rw [perform_solve_of_none hm]
    refine ⟨nofun, fun ⟨m, hd⟩ => ?_⟩
    cases hm.symm.trans hd.loaded
  case some m =>
    rcases hp : (solve engine).perform ⟨s, o, log⟩ with ⟨r, s', _, _⟩
    cases solves_of_perform hm hp
    case failed e =>
      refine ⟨nofun, fun ⟨_, hd⟩ => ?_⟩
      cases (congrArg Prod.fst hp).symm.trans hd.succeeds
    case delivered solved' hs =>
      refine ⟨fun h => ⟨m, hm, congrArg Prod.fst hp, ?_⟩, fun ⟨m', hd⟩ => ?_⟩
      · cases h
        exact hs
      · cases hm.symm.trans hd.loaded
        exact congrArg some (hs.unique hd.solves)

-- The last solve among the operations has succeeded, and none of those after it has reached the
-- model, which is still the one that was solved.
def Current (engine : Engine α ω) (start : Context α (ReferenceOptimizer α) ω)
    (past : List (Operation α)) (m : Model α) (solved : Solved α) : Prop :=
  ∃ before after, past = before ++ .solve :: after ∧
    Delivers engine (operate (operations engine) start before) m solved ∧
    (∀ operation ∈ after, ¬operation.Reaches) ∧
    ∀ kept, kept <+: after →
      (operate (operations engine) start (before ++ .solve :: kept)).state.model = some m

omit [Scalar α] in
theorem operate_concat (opt : Optimizer α (ReferenceOptimizer α) ω) :
    operate opt start (past ++ [operation]) =
      ((operation.run opt).perform (operate opt start past)).2 := by
  rw [operate, List.foldl_append]
  rfl

theorem Current.model (h : Current engine start past m solved) :
    (operate (operations engine) start past).state.model = some m := by
  have ⟨_, _, hp, _, _, hm⟩ := h
  exact hp ▸ hm _ (List.prefix_refl _)

theorem Delivers.current (h : Delivers engine (operate (operations engine) start past) m solved) :
    Current engine start (past ++ [.solve]) m solved := by
  refine ⟨past, [], rfl, h, nofun, fun kept hk => ?_⟩
  rw [List.prefix_nil.mp hk, operate_concat]
  exact (keeps_solve (f := (·.model)) (fun _ _ => rfl) engine _).trans h.loaded

theorem Current.concat (h : Current engine start past m solved) (hr : ¬operation.Reaches) :
    Current engine start (past ++ [operation]) m solved := by
  have hm := h.model
  have ⟨before, after, hp, hd, ha, hk⟩ := h
  refine ⟨before, after ++ [operation], by simp [hp], hd, ?_, fun kept hkept => ?_⟩
  · simpa [or_imp, forall_and] using ⟨ha, hr⟩
  · rcases List.prefix_concat_iff.mp hkept with rfl | hkept
    · rw [← List.cons_append, ← List.append_assoc, ← hp, operate_concat]
      exact (congrArg Prod.fst (keeps_of_not_reaches hr _)).trans hm
    · exact hk kept hkept

-- With one more operation the last solve is that one, or it is still the last one before.
theorem current_concat_iff : Current engine start (past ++ [operation]) m solved ↔
    (operation = .solve ∧ Delivers engine (operate (operations engine) start past) m solved) ∨
      ¬operation.Reaches ∧ Current engine start past m solved := by
  refine ⟨fun ⟨before, after, hp, hd, ha, hk⟩ => ?_, ?_⟩
  · rcases List.eq_nil_or_concat after with rfl | ⟨after, last, rfl⟩
    · have ⟨hb, ho⟩ := List.append_inj' hp rfl
      cases ho
      exact .inl ⟨rfl, hb ▸ hd⟩
    · rw [List.concat_eq_append, ← List.cons_append, ← List.append_assoc] at hp
      have ⟨hb, ho⟩ := List.append_inj' hp rfl
      cases ho
      refine .inr ⟨ha _ (by simp), before, after, hb, hd, fun o ho => ha o (by simp [ho]), ?_⟩
      exact fun kept hkept => hk kept (hkept.trans (by simp))
  · rintro (⟨rfl, hd⟩ | ⟨hr, hc⟩)
    · exact hd.current
    · exact hc.concat hr

-- The induction is on the operations, from the last one on: a solve has a result of its own, what
-- reaches the model has none, and everything else leaves the result as it was.
theorem result_operate_iff (hs : start.state.result = none) :
    (operate (operations engine) start past).state.result = some solved ↔
      ∃ m, Current engine start past m solved := by
  induction past using List.reverseRecOn
  case nil => simp [operate, hs, Current]
  case append_singleton past operation hi =>
    simp only [operate_concat, current_concat_iff]
    by_cases ho : operation = .solve
    case pos =>
      subst ho
      simpa [Operation.Reaches] using! result_solve_iff
    case neg =>
      by_cases hr : operation.Reaches
      case pos => simp [result_of_reaches hr ho, ho, hr]
      case neg =>
        have hk : ((operation.run (operations engine)).perform
            (operate (operations engine) start past)).2.state.result =
              (operate (operations engine) start past).state.result :=
          congrArg Prod.snd (keeps_of_not_reaches hr _)
        simp [hk, hi, ho, hr]

-- What can be read belongs to the latest solve and to the model that is loaded. The status is that
-- of the latest solve too, or else it says that there has been none.
structure Fresh (engine : Engine α ω) (start c : Context α (ReferenceOptimizer α) ω)
    (past : List (Operation α)) : Prop where
  primal : ∀ x, ((operations engine).primal.perform c).1 = .ok x ↔
    ∃ m solved, Current engine start past m solved ∧ solved.primal = some x
  duals : ∀ y, ((operations engine).duals.perform c).1 = .ok y ↔
    ∃ m solved, Current engine start past m solved ∧ solved.duals = some y
  objective : ∀ v, (operations engine).objectiveValue c.state = some v ↔
    ∃ m solved, Current engine start past m solved ∧ solved.objective = some v
  status : ∀ m, c.state.model = some m →
    (∃ solved, Current engine start past m solved ∧
      (operations engine).status c.state = solved.status) ∨
    (∀ solved, ¬Current engine start past m solved) ∧
      (operations engine).status c.state =
        if m.hasDiscrete then DiscreteStatus.rootUnsolved.code else ContinuousStatus.unstarted.code

omit [Scalar α] in
theorem fst_perform_reading_eq_ok_iff {part : Solved α → Option β} {b : β} :
    ((reading part : Call α ω β).perform c).1 = .ok b ↔
      ∃ solved, c.state.result = some solved ∧ part solved = some b := by
  rw [perform_reading, ← Option.bind_eq_some_iff]
  cases c.state.result.bind part <;> simp

theorem fresh_of_result
    (hr : ∀ solved, c.state.result = some solved ↔ ∃ m, Current engine start past m solved)
    (hc : ∀ m solved, Current engine start past m solved → c.state.model = some m) :
    Fresh engine start c past := by
  have hread {γ : Type} (part : Solved α → Option γ) (b : γ) :
      (∃ solved, c.state.result = some solved ∧ part solved = some b) ↔
        ∃ m solved, Current engine start past m solved ∧ part solved = some b := by
    simp only [hr, ← exists_and_right]
    exact exists_comm
  refine ⟨fun x => ?primal, fun y => ?duals, fun v => ?objective, fun m hm => ?status⟩
  case primal => exact fst_perform_reading_eq_ok_iff.trans (hread (·.primal) x)
  case duals => exact fst_perform_reading_eq_ok_iff.trans (hread (·.duals) y)
  case objective => exact Option.bind_eq_some_iff.trans (hread (·.objective) v)
  case status =>
    simp only [operations, status, hm]
    cases hs : c.state.result
    case some solved =>
      have ⟨m', h⟩ := (hr solved).mp hs
      cases (hc m' solved h).symm.trans hm
      exact .inl ⟨solved, h, rfl⟩
    case none =>
      refine .inr ⟨fun solved h => ?_, rfl⟩
      cases hs.symm.trans ((hr solved).mpr ⟨m, h⟩)

-- Whatever a new optimizer is asked to do, and however the operations end, nothing that can be read
-- afterwards is out of date.
theorem operate_fresh (engine : Engine α ω) (controls : Controls α) (o : ω)
    (log : List (Event α)) (past : List (Operation α)) :
    Fresh engine ⟨withControls controls, o, log⟩
      (operate (operations engine) ⟨withControls controls, o, log⟩ past) past :=
  fresh_of_result (fun _ => result_operate_iff rfl) fun _ _ => Current.model

-- A solve, and then a change that is turned down for its lengths and a control that there is not.
def turnedDown : List (Operation Float) :=
  [.load (oneColumn [0, 1]), .solve, .changeRhs [0] [], .setControl "threads" (.flag true)]

set_option maxRecDepth 10000 in
-- What the solve has delivered can still be read.
theorem operate_fresh_turnedDown : ∃ m solved,
    Current origin ⟨withControls .standard, (), []⟩ turnedDown m solved ∧
      solved.primal = some [0] :=
  ((operate_fresh origin .standard () [] turnedDown).primal [0]).mp rfl

end ReferenceOptimizer
end ConicProgram
