import ConicProgram.Proofs.Model.Closed
import ConicProgram.Proofs.Optimizer.Controls
import ConicProgram.Proofs.Optimizer.Recording
import ConicProgram.Proofs.Optimizer.Reference

namespace ConicProgram

section Operations

variable {α σ ω : Type}

-- What else an optimizer tells is read off its state.
inductive Operation (α : Type) where
  | load (d : LoadData α)
  | addColumns (bounds : List (Bounds α))
  | addRows (d : RowData α)
  | addCone (c : ConeConstraint α)
  | setObjective (coefficients : List α)
  | changeObjective (cols : List Nat) (values : List α)
  | changeCoefficients (rows cols : List Nat) (values : List α)
  | changeRhs (rows : List Nat) (values : List α)
  | changeKinds (cols : List Nat) (kinds : List ColumnKind)
  | setControl (name : String) (value : ControlValue α)
  | resetControls
  | solve
  | primal
  | duals

def Operation.run (opt : Optimizer α σ ω) :
    Operation α → Action α σ ω (OptimizerError α) Unit
  | load d => opt.load d
  | addColumns bounds => do
    let _ ← opt.addColumns bounds
  | addRows d => do
    let _ ← opt.addRows d
  | addCone c => do
    let _ ← opt.addCone c
  | setObjective coefficients => opt.setObjective coefficients
  | changeObjective cols values => opt.changeObjective cols values
  | changeCoefficients rows cols values => opt.changeCoefficients rows cols values
  | changeRhs rows values => opt.changeRhs rows values
  | changeKinds cols kinds => opt.changeKinds cols kinds
  | setControl name value => opt.setControl name value
  | resetControls => opt.resetControls
  | solve => opt.solve
  | primal => do
    let _ ← opt.primal
  | duals => do
    let _ ← opt.duals

-- The operations are run one after the other, whether they succeed or not.
def operate (opt : Optimizer α σ ω) (c : Context α σ ω) (operations : List (Operation α)) :
    Context α σ ω :=
  operations.foldl (fun c operation => ((operation.run opt).perform c).2) c

end Operations

namespace ReferenceOptimizer

variable {α ω β : Type}

theorem perform_editing (edit : Model α → Attempt (OptimizerError α) β × Model α)
    (c : Context α (ReferenceOptimizer α) ω) :
    (editing edit).perform c = match c.state.model with
      | none => (.error (.refused .notLoaded), { c with state := c.state.forget })
      | some m => ((edit m).1, { c with state := c.state.holding (edit m).2 }) := by
  rcases c with ⟨⟨_ | m, _, _, _⟩, _, _⟩
  case none => rfl
  case some =>
    unfold editing
    rw [Action.perform_bind_of_ok (Action.perform_modifyState _),
      Action.perform_bind_of_ok Action.perform_state]
    dsimp only [forget]
    rw [Action.perform_bind_of_ok (Action.perform_modifyState _), Action.perform_ofAttempt]
    rfl

variable [Scalar α]

def Closed (s : ReferenceOptimizer α) : Prop :=
  ∀ m, s.model = some m → m.Closed

-- Where a closed model is loaded, the call does not end in a fault. It leaves a closed model, and
-- the engine is asked for what fits the one that was there.
def Safe (a : Call α (ω × List (EngineCall α)) β) : Prop :=
  ∀ c, c.state.Closed → (a.perform c).1 ≠ .error .fault ∧ (a.perform c).2.state.Closed ∧
    Asked c.state.columnCount c.outside (a.perform c).2.outside

namespace Safe

variable {a : Call α (ω × List (EngineCall α)) β}

theorem discard (h : Safe a) : Safe (do let _ ← a) := by
  intro c hc
  have hs := h c hc
  rw [Action.perform_bind]
  cases hp : a.perform c
  case mk t d =>
  rw [hp] at hs
  rcases t with (_ | _) | _
  case error.fault => exact absurd rfl hs.1
  all_goals exact ⟨nofun, hs.2⟩

theorem check {e : Except (OptimizerError α) Unit} (h : e = .ok () → Safe a) :
    Safe (do Action.ofExcept e; a) := by
  cases e
  case error => exact fun c hc => ⟨nofun, hc, .refl _⟩
  case ok => exact h rfl

theorem checkLengths (part : String) (agree : Bool) (h : Safe a) :
    Safe (do ReferenceOptimizer.checkLengths part agree; a) := by
  cases agree
  case false => exact fun c hc => ⟨nofun, hc, .refl _⟩
  case true => exact h

-- An action that leaves the model alone, and fits whatever is loaded.
theorem of_asks (ha : ∀ n, a.Asks n fun _ => True) (hk : a.Keeps (·.model)) : Safe a := by
  intro c hc
  have ⟨hf, ho⟩ := ha c.state.columnCount c
  exact ⟨hf.ne_fault, fun m hm => hc m ((hk c).symm.trans hm), ho⟩

end Safe

theorem safe_editing {edit : Model α → Attempt (OptimizerError α) β × Model α}
    (h : ∀ m, m.Closed → (edit m).1 ≠ .error .fault ∧ (edit m).2.Closed) :
    Safe (editing edit : Call α (ω × List (EngineCall α)) β) := by
  intro c hc
  rw [perform_editing]
  cases hm : c.state.model
  case none => exact ⟨nofun, hc, .refl _⟩
  case some m =>
    have ⟨hf, hk⟩ := h m (hc m hm)
    refine ⟨hf, fun m' hm' => ?_, .refl _⟩
    cases hm'
    exact hk

theorem safe_replacing {edit : Model α → Attempt (OptimizerError α) (β × Model α)}
    (h : ∀ m, m.Closed → (edit m).Meets fun r => r.2.Closed) :
    Safe (replacing edit : Call α (ω × List (EngineCall α)) β) := by
  refine safe_editing fun m hm => ?_
  have hr := h m hm
  cases he : edit m <;> rw [he] at hr
  case ok r => exact ⟨nofun, hr⟩
  case error e => exact ⟨fun hf => hr.ne_fault (congrArg _ (Except.error.inj hf)), hm⟩

theorem safe_load (d : LoadData α) : Safe (load d : Call α (ω × List (EngineCall α)) Unit) := by
  intro c hc
  have hl := Model.meets_ofLoadData d
  cases hd : Model.ofLoadData d <;> rw [hd] at hl
  case error e =>
    have hp : (load d).perform c = (.error e, c) :=
      Action.perform_bind_of_error (by rw [Action.perform_ofAttempt, hd])
    rw [hp]
    exact ⟨fun hf => hl.ne_fault (congrArg _ (Except.error.inj hf)), hc, .refl _⟩
  case ok m =>
    have ⟨hm, entries, he⟩ := hl
    have ⟨_, hp⟩ := yields_load (s := c.state) hd he c.outside c.log
    rw [show (load d).perform c = _ from hp]
    refine ⟨nofun, fun m' hm' => ?_, .refl _⟩
    cases hm'
    exact hm

theorem safe_addColumns (bounds : List (Bounds α)) :
    Safe (addColumns bounds : Call α (ω × List (EngineCall α)) Span) :=
  safe_replacing fun _ hm => hm.addColumns bounds

theorem safe_addRows (d : RowData α) :
    Safe (addRows d : Call α (ω × List (EngineCall α)) Span) :=
  .check fun hd => safe_replacing fun _ hm => (hm.meets_addRows hd).bind fun _ hg => hg

theorem safe_addCone (k : ConeConstraint α) :
    Safe (addCone k : Call α (ω × List (EngineCall α)) Nat) :=
  safe_replacing fun _ hm =>
    (Attempt.meets_ofExcept fun _ => hm.addCone).bind fun _ hg => hg

theorem safe_setObjective (coefficients : List α) :
    Safe (setObjective coefficients : Call α (ω × List (EngineCall α)) Unit) := by
  refine safe_replacing fun m hm => Attempt.meets_check fun hn => ?_
  have hl : coefficients.length = m.columnCount := not_not.mp hn
  rw [if_neg (not_not.mpr (hl.trans hm.objective.symm))]
  exact ⟨⟨hm.rows, hm.cones⟩, hl⟩

-- A group of writes may stop at any of them.
theorem safe_writes (part : String) (agree : Bool) (ws : List (Model.Write α)) :
    Safe (do
      checkLengths part agree
      editing fun m => m.writeAll ws : Call α (ω × List (EngineCall α)) Unit) :=
  .checkLengths part agree (safe_editing fun _ hm => hm.meets_writeAll)

theorem safe_setControl (name : String) (value : ControlValue α) :
    Safe (setControl name value : Call α (ω × List (EngineCall α)) Unit) := by
  refine .of_asks (fun n => Action.asks_state.bind fun s _ => ?_) (keeps_setControl (fun _ _ => rfl) name value)
  split
  case h_1 => exact Action.asks_ofAttempt trivial
  case h_2 =>
    split
    case h_1 => exact Action.asks_ofAttempt trivial
    case h_2 => exact Action.asks_modifyState _

theorem safe_resetControls :
    Safe (liftM (resetControls (α := α) (ω := ω × List (EngineCall α))) :
      Call α (ω × List (EngineCall α)) Unit) :=
  fun _ hc => ⟨nofun, hc, .refl _⟩

theorem safe_reading (part : Solved α → Option β) :
    Safe (reading part : Call α (ω × List (EngineCall α)) β) := by
  refine .of_asks (fun n => Action.asks_state.bind fun s _ => ?_) (keeps_reading part)
  split
  · exact Action.asks_pure trivial
  · exact Action.asks_ofAttempt trivial

theorem safe_solve {engine : Engine α ω} (he : engine.Sized) : Safe (solve engine.recorded) := by
  intro ⟨s, o, log⟩ hc
  have hk := keeps_solve (f := (·.model)) (fun _ _ => rfl) engine.recorded ⟨s, o, log⟩
  refine and_left_comm.mp ⟨fun m hm => hc m (hk.symm.trans hm), ?_⟩
  cases hm : s.model
  case none =>
    rw [perform_solve_of_none hm]
    exact ⟨nofun, .refl _⟩
  case some m =>
    have hs : ((if m.hasDiscrete then solveDiscrete else solveContinuous)
        engine.recorded m s.controls).Asks m.columnCount fun _ => True := by
      split
      case isTrue => exact (hc m hm).asks_solveDiscrete he
      case isFalse => exact (hc m hm).asks_solveContinuous he
    have ⟨hf, ho⟩ := (hs.bind fun result _ => Action.asks_modifyState
      fun s : ReferenceOptimizer α => { s with result := some result }) ⟨s.forget, o, log⟩
    rw [perform_solve hm, columnCount, hm]
    exact ⟨hf.ne_fault, ho⟩

section Runs

variable {engine : Engine α ω} (he : engine.Sized)
  {c : Context α (ReferenceOptimizer α) (ω × List (EngineCall α))}

-- What a new optimizer has come to, whatever has been asked of it.
def Reached (engine : Engine α ω)
    (c : Context α (ReferenceOptimizer α) (ω × List (EngineCall α))) : Prop :=
  ∃ controls o log past,
    c = operate (operations engine.recorded) ⟨withControls controls, (o, []), log⟩ past

-- All but a solve is safe with any engine.
theorem safe_run_of_ne_solve (engine : Engine α ω) {operation : Operation α}
    (h : operation ≠ .solve) : Safe (operation.run (operations engine.recorded)) := by
  cases operation
  case load d => exact safe_load d
  case addColumns bounds => exact (safe_addColumns bounds).discard
  case addRows d => exact (safe_addRows d).discard
  case addCone k => exact (safe_addCone k).discard
  case setObjective coefficients => exact safe_setObjective coefficients
  case changeObjective cols values => exact safe_writes _ _ _
  case changeCoefficients rows cols values => exact safe_writes _ _ _
  case changeRhs rows values => exact safe_writes _ _ _
  case changeKinds cols kinds => exact safe_writes _ _ _
  case setControl name value => exact safe_setControl name value
  case resetControls => exact safe_resetControls
  case solve => exact absurd rfl h
  case primal => exact (safe_reading _).discard
  case duals => exact (safe_reading _).discard

include he in
theorem safe_run (operation : Operation α) :
    Safe (operation.run (operations engine.recorded)) := by
  by_cases h : operation = .solve
  case pos => exact h ▸ safe_solve he
  case neg => exact safe_run_of_ne_solve engine h

-- A solve leaves the model as it is, whatever the engine replies.
theorem closed_run (hc : c.state.Closed) (operation : Operation α) :
    ((operation.run (operations engine.recorded)).perform c).2.state.Closed := by
  by_cases h : operation = .solve
  case pos =>
    subst h
    have hk := keeps_solve (f := (·.model)) (fun _ _ => rfl) engine.recorded c
    exact fun m hm => hc m (hk.symm.trans hm)
  case neg => exact (safe_run_of_ne_solve engine h c hc).2.1

-- The induction is on the operations, each of which keeps the model closed.
theorem closed_operate (hc : c.state.Closed) (past : List (Operation α)) :
    (operate (operations engine.recorded) c past).state.Closed := by
  induction past generalizing c
  case nil => exact hc
  case cons operation past hi => exact hi (closed_run hc operation)

theorem Reached.closed (hc : Reached engine c) : c.state.Closed := by
  have ⟨controls, o, log, past, hc⟩ := hc
  rw [hc]
  exact closed_operate (fun _ hm => by cases hm) past

include he

-- After any operations the next one, whatever it is given, does not end in a fault. The model that
-- it leaves is closed, and every call of the engine fits the columns that there are.
theorem operate_keeps_closed (hc : Reached engine c) (operation : Operation α) {r d}
    (h : (operation.run (operations engine.recorded)).perform c = (r, d)) :
    r ≠ .error .fault ∧ d.state.Closed ∧ Asked c.state.columnCount c.outside d.outside := by
  have hs := safe_run he operation c hc.closed
  rw [h] at hs
  exact hs

end Runs

section Halfway

-- The point that comes back is the origin.
def origin : Engine Float Unit :=
  fun call => pure <| .ok {
    status := .solved
    primal := List.replicate call.matrix.cols 0
    dual := List.replicate call.matrix.rows 0
    objective := 0 }

theorem sized_origin : origin.Sized := by
  intro call _ reply _ h
  cases h
  exact List.length_replicate

def oneColumn (starts : List Nat) : LoadData Float where
  senses := [.atMost]
  rhs := [1]
  starts
  rowIndices := [0]
  values := [1]
  lower := [0]
  upper := [1]
  objective := [1]

-- A load whose column ends behind the entries, one that fits, a batch of two writes of which only
-- the first has its place, and a constraint that names a column twice.
def halfway : List (Operation Float) :=
  [.load (oneColumn [0, 2]), .load (oneColumn [0, 1]), .changeObjective [0, 5] [2, 3],
    .addCone { apex := .ofColumn 0, legs := [⟨1, [(0, 1), (0, 1)]⟩] }]

def halfwayContext : Context Float (ReferenceOptimizer Float) (Unit × List (EngineCall Float)) :=
  operate (operations origin.recorded) ⟨withControls .standard, ((), []), []⟩ halfway

theorem reached_halfway : Reached origin halfwayContext :=
  ⟨.standard, (), [], halfway, rfl⟩

-- The first write of the batch has stayed.
theorem operate_keeps_closed_halfway : origin.Sized ∧ Reached origin halfwayContext ∧
    (∃ m, halfwayContext.state.model = some m ∧ m.columnCount = 1 ∧ m.objective = [2] ∧
      m.cones.length = 1) ∧
    ∃ r d, (Operation.solve.run (operations origin.recorded)).perform halfwayContext = (r, d) ∧
      r ≠ .error .fault ∧ d.state.Closed ∧
      Asked halfwayContext.state.columnCount halfwayContext.outside d.outside := by
  refine ⟨sized_origin, reached_halfway, ⟨_, rfl, rfl, rfl, rfl⟩, ?_⟩
  cases h : (Operation.solve.run (operations origin.recorded)).perform halfwayContext
  case mk r d => exact ⟨r, d, rfl, operate_keeps_closed sized_origin reached_halfway .solve h⟩

end Halfway
end ReferenceOptimizer
end ConicProgram
