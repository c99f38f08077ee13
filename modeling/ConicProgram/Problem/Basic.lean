import ConicProgram.Problem.Partition
import ConicProgram.Sparse.Format

namespace ConicProgram

-- Which data may change from one solve to the next.
structure Parameters where
  objective : Bool := true
  constraints : Bool := true
deriving DecidableEq

-- Minimise the objective over the points `x` for which `rhs - matrix * x` is zero in the equality
-- rows, nonnegative in the inequality rows and in a second-order cone in each block.
structure Problem (α : Type) where
  objective : List α
  matrix : SparseMatrix α
  rhs : List α
  partition : Partition
  booleans : List Nat := []
  integers : List Nat := []
  parameters : Parameters := {}
deriving BEq

inductive IndexSet where
  | boolean
  | integer
deriving DecidableEq

def IndexSet.text : IndexSet → String
  | boolean => "boolean"
  | integer => "integer"

inductive ProblemError where
  | objectiveLength (expected actual : Nat)
  | rhsLength (expected actual : Nat)
  | rowCount (declared actual : Nat)
  | emptyCone (cone : Nat)
  | indexOutOfRange (set : IndexSet) (index columns : Nat)
  | badMatrix (cause : FormatError)
deriving DecidableEq

def ProblemError.message : ProblemError → String
  | objectiveLength expected actual =>
    s!"objective has length {actual} but the matrix has {expected} columns"
  | rhsLength expected actual =>
    s!"right-hand side has length {actual} but the matrix has {expected} rows"
  | rowCount declared actual =>
    s!"dimensions describe {declared} rows but the matrix has {actual}"
  | emptyCone cone => s!"cone {cone} has size zero"
  | indexOutOfRange set index columns =>
    set.text ++ s!" index {index} is out of range for {columns} variables"
  | badMatrix cause => "bad constraint matrix: " ++ cause.message

namespace Problem

variable {α : Type}

def variableCount (p : Problem α) : Nat :=
  p.matrix.cols

def rowCount (p : Problem α) : Nat :=
  p.matrix.rows

def isMixedInteger (p : Problem α) : Bool :=
  !(p.booleans.isEmpty && p.integers.isEmpty)

def strayIndex? (p : Problem α) : Option (IndexSet × Nat) :=
  let stray (set : IndexSet) (indices : List Nat) :=
    (indices.find? (p.variableCount ≤ ·)).map (set, ·)
  (stray .boolean p.booleans).or (stray .integer p.integers)

def validate (p : Problem α) : Except ProblemError Unit :=
  match p.matrix.checkFormat with
  | .error cause => .error (.badMatrix cause)
  | .ok () =>
    if p.objective.length ≠ p.variableCount then
      .error (.objectiveLength p.variableCount p.objective.length)
    else if p.rhs.length ≠ p.rowCount then
      .error (.rhsLength p.rowCount p.rhs.length)
    else if let some cone := p.partition.cones.findIdx? (· = 0) then
      .error (.emptyCone cone)
    else if p.partition.totalRows ≠ p.rowCount then
      .error (.rowCount p.partition.totalRows p.rowCount)
    else if let some (set, index) := p.strayIndex? then
      .error (.indexOutOfRange set index p.variableCount)
    else .ok ()

def validated (p : Problem α) : Except ProblemError (Problem α) := do
  p.validate
  return p

def continuous? (objective : List α) (matrix : SparseMatrix α) (rhs : List α)
    (partition : Partition) : Except ProblemError (Problem α) :=
  validated { objective, matrix, rhs, partition }

def withBooleans? (p : Problem α) (booleans : List Nat) : Except ProblemError (Problem α) :=
  validated { p with booleans }

def withIntegers? (p : Problem α) (integers : List Nat) : Except ProblemError (Problem α) :=
  validated { p with integers }

def withParameters (p : Problem α) (parameters : Parameters) : Problem α :=
  { p with parameters }

end Problem
end ConicProgram
