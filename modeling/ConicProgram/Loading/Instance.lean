import ConicProgram.Loading.ConeMode
import ConicProgram.Optimizer.Basic

namespace ConicProgram

inductive ColumnOrigin where
  | structural (j : Nat)
  | cone (cone member : Nat)
deriving DecidableEq

-- The origins of all columns: first the variables of the problem, then the columns of each cone.
structure ColumnTable where
  origins : List ColumnOrigin
  structurals : Nat
deriving DecidableEq

namespace ColumnTable

def ofVariables (n : Nat) : ColumnTable where
  origins := (List.range n).map .structural
  structurals := n

def length (t : ColumnTable) : Nat :=
  t.origins.length

def isEmpty (t : ColumnTable) : Bool :=
  t.origins.isEmpty

def origin? (t : ColumnTable) (j : Nat) : Option ColumnOrigin :=
  t.origins[j]?

def coneColumns (t : ColumnTable) (cone : Nat) : List Nat :=
  t.origins.zipIdx.filterMap fun (o, j) => match o with
    | .cone c _ => if c = cone then some j else none
    | .structural _ => none

-- The table with the columns of one more cone, which have to follow the ones that are there.
def addCone? (t : ColumnTable) (cone : Nat) (columns : Span) : Option ColumnTable :=
  if columns.start = t.length then
    some { t with origins := t.origins ++ (List.range columns.length).map (.cone cone) }
  else none

end ColumnTable

structure Instance (σ : Type) where
  optimizer : σ
  mode : ConeMode
  columns : ColumnTable
  cones : List ConeRecord
  linearRows : Nat

namespace Instance

variable {α σ ω β : Type}

def blank (optimizer : σ) (mode : ConeMode) (variableCount linearRows : Nat) :
    Instance σ where
  optimizer
  mode
  columns := .ofVariables variableCount
  cones := []
  linearRows

def variableCount (s : Instance σ) : Nat :=
  s.columns.structurals

def columnCount (s : Instance σ) : Nat :=
  s.columns.length

-- The row of the optimizer that holds a row of the problem, if it is held as a row at all.
def realizedRow? (s : Instance σ) (row : Nat) : Option Nat :=
  if row < s.linearRows then some row
  else do
    let record ← s.cones.find? fun r => row ∈ r.source
    if record.rows.isEmpty then none
    else return record.rows.start + (row - record.source.start)

def addRecord (record : ConeRecord) (s : Instance σ) : Instance σ :=
  { s with cones := s.cones ++ [record] }

def call (operation : Action α σ ω (OptimizerError α) β) :
    Action α (Instance σ) ω (SolveError α) β :=
  (operation.mapCause .rejected).within (·.optimizer) fun optimizer s => { s with optimizer }

variable (opt : Optimizer α σ ω)

def addConeColumns (cone : Nat) (bounds : List (Bounds α)) :
    Action α (Instance σ) ω (SolveError α) Span := do
  let added ← call (opt.addColumns bounds)
  match (← Action.state).columns.addCone? cone added with
  | some columns =>
    Action.modifyState fun s => { s with columns }
    return added
  | none => Action.refuse (.rejected (.dimension "cone columns"))

def target : ConeTarget α (Instance σ) ω where
  addConeColumns := addConeColumns opt
  addRows d := call (opt.addRows d)
  changeCoefficients rows cols values := call (opt.changeCoefficients rows cols values)
  addCone c := call (opt.addCone c)

end Instance
end ConicProgram
