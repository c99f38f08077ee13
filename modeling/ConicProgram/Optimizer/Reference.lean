import ConicProgram.Optimizer.Basic
import ConicProgram.Optimizer.Branching

namespace ConicProgram

-- What a solve came to. The multipliers are known for continuous models only.
structure Solved (α : Type) where
  status : Int
  objective : Option α
  primal : Option (List α)
  duals : Option (List α)

-- Whatever is done to the model, the result of the latest solve is dropped before.
structure ReferenceOptimizer (α : Type) where
  model : Option (Model α)
  controls : Controls α
  -- The controls to go back to.
  initial : Controls α
  result : Option (Solved α)

namespace ReferenceOptimizer

variable {α ω β : Type}

abbrev Call (α ω β : Type) := Action α (ReferenceOptimizer α) ω (OptimizerError α) β

def withControls (controls : Controls α) : ReferenceOptimizer α where
  model := none
  controls
  initial := controls
  result := none

def forget (s : ReferenceOptimizer α) : ReferenceOptimizer α :=
  { s with result := none }

def status (s : ReferenceOptimizer α) : Int :=
  match s.result, s.model with
  | some result, _ => result.status
  | none, some m =>
    if m.hasDiscrete then DiscreteStatus.rootUnsolved.code else ContinuousStatus.unstarted.code
  | none, none => DiscreteStatus.notLoaded.code

def objectiveValue (s : ReferenceOptimizer α) : Option α :=
  s.result.bind (·.objective)

def kinds (s : ReferenceOptimizer α) : List ColumnKind :=
  s.model.elim [] fun m => m.columns.map (·.kind)

def rowCount (s : ReferenceOptimizer α) : Nat :=
  s.model.elim 0 Model.rowCount

def columnCount (s : ReferenceOptimizer α) : Nat :=
  s.model.elim 0 Model.columnCount

def coneCount (s : ReferenceOptimizer α) : Nat :=
  s.model.elim 0 fun m => m.cones.length

def reading (part : Solved α → Option β) : Call α ω β := do
  let s ← Action.state
  match s.result.bind part with
  | some b => return b
  | none => Action.refuse (.noSolution s.status)

-- An edit of the loaded model. What has been written before a failure stays written.
def editing (edit : Model α → Attempt (OptimizerError α) β × Model α) : Call α ω β := do
  Action.modifyState forget
  match (← Action.state).model with
  | none => Action.refuse .notLoaded
  | some m =>
    let (result, m) := edit m
    Action.modifyState fun s => { s with model := some m }
    Action.ofAttempt result

-- An edit that changes nothing if it fails.
def replacing (edit : Model α → Attempt (OptimizerError α) (β × Model α)) : Call α ω β :=
  editing fun m =>
    match edit m with
    | .ok (b, m) => (.ok b, m)
    | .error e => (.error e, m)

def checkLengths (part : String) (agree : Bool) : Call α ω Unit :=
  if agree then return else Action.refuse (.dimension part)

variable [Scalar α]

instance : Inhabited (ReferenceOptimizer α) := ⟨withControls .standard⟩

def load (d : LoadData α) : Call α ω Unit := do
  let m ← Action.ofAttempt (Model.ofLoadData d)
  let entries ← Action.ofOption d.starts[m.columnCount]?
  Action.record (.loaded m.rowCount m.columnCount entries)
  Action.modifyState fun s => { s with model := some m, result := none }

def addColumns (bounds : List (Bounds α)) : Call α ω Span :=
  replacing fun m =>
    let grown := m.addColumns bounds
    .ok (⟨m.columnCount, grown.columnCount⟩, grown)

def addRows (d : RowData α) : Call α ω Span := do
  Action.ofExcept (Model.checkRowData d)
  replacing fun m => do
    let grown ← m.addRows d
    return (⟨m.rowCount, grown.rowCount⟩, grown)

def addCone (c : ConeConstraint α) : Call α ω Nat :=
  replacing fun m => do
    let grown ← Attempt.ofExcept (m.addCone c)
    return (m.cones.length, grown)

def setObjective (coefficients : List α) : Call α ω Unit :=
  replacing fun m =>
    if coefficients.length ≠ m.columnCount then .refuse (.dimension "objective")
    else if coefficients.length ≠ m.objective.length then .fault
    else .ok ((), { m with objective := coefficients })

def changeObjective (cols : List Nat) (values : List α) : Call α ω Unit := do
  checkLengths "objective change" (cols.length == values.length)
  editing fun m => m.writeAll (cols.zipWith .objective values)

def changeCoefficients (rows cols : List Nat) (values : List α) : Call α ω Unit := do
  checkLengths "coefficient change" (rows.length == cols.length && cols.length == values.length)
  editing fun m =>
    m.writeAll ((rows.zip cols).zipWith (fun (i, j) v => .coefficient i j v) values)

def changeRhs (rows : List Nat) (values : List α) : Call α ω Unit := do
  checkLengths "rhs change" (rows.length == values.length)
  editing fun m => m.writeAll (rows.zipWith .rhs values)

def changeKinds (cols : List Nat) (kinds : List ColumnKind) : Call α ω Unit := do
  checkLengths "column type change" (cols.length == kinds.length)
  editing fun m => m.writeAll (cols.zipWith .kind kinds)

def setControl (name : String) (value : ControlValue α) : Call α ω Unit := do
  let s ← Action.state
  match ControlName.ofText? name with
  | none => Action.refuse (.unknownControl name)
  | some known =>
    match s.controls.set? known value with
    | none => Action.refuse (.badControlValue name value)
    | some controls => Action.setState { s with controls }

def resetControls : StateM (Context α (ReferenceOptimizer α) ω) Unit :=
  modify fun c => { c with state := { c.state with controls := c.state.initial } }

def solveDiscrete (engine : Engine α ω) (m : Model α) (controls : Controls α) :
    Call α ω (Solved α) := do
  let found ← m.search engine controls
  Action.record (.searched found.nodes found.status.code)
  let objective ← found.incumbent.mapM fun x => Action.ofOption (m.objectiveAt? x)
  return { status := found.status.code, objective, primal := found.incumbent, duals := none }

def solveContinuous (engine : Engine α ω) (m : Model α) (controls : Controls α) :
    Call α ω (Solved α) := do
  let r ← m.relax engine controls m.columnBounds
  let ifSolved {γ : Type} (value : γ) : Option γ :=
    if r.outcome = .solved then some value else none
  return {
    status := r.outcome.status.code
    objective := ifSolved r.objective
    primal := ifSolved r.primal
    duals := ifSolved (m.rowDuals r.dual) }

def solve (engine : Engine α ω) : Call α ω Unit := do
  Action.modifyState forget
  let s ← Action.state
  match s.model with
  | none => Action.refuse .notLoaded
  | some m =>
    let solver := if m.hasDiscrete then solveDiscrete else solveContinuous
    let result ← solver engine m s.controls
    Action.modifyState fun s => { s with result := some result }

def operations (engine : Engine α ω) : Optimizer α (ReferenceOptimizer α) ω where
  name := "CLARABEL"
  fresh := default
  load
  addColumns
  addRows
  addCone
  setObjective
  changeObjective
  changeCoefficients
  changeRhs
  changeKinds
  setControl
  hasControl _ name := ControlName.isKnown name
  resetControls
  solve := solve engine
  status
  objectiveValue
  primal := reading (·.primal)
  duals := reading (·.duals)
  kinds
  rowCount
  columnCount
  coneCount

end ReferenceOptimizer
end ConicProgram
