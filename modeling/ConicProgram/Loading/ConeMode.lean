import ConicProgram.Action
import ConicProgram.Model.Cone
import ConicProgram.Model.Data
import ConicProgram.Problem.Partition
import ConicProgram.Sparse.Rows

namespace ConicProgram

structure ConeTarget (α τ ω : Type) where
  addConeColumns : (cone : Nat) → List (Bounds α) → Action α τ ω (SolveError α) Span
  addRows : RowData α → Action α τ ω (SolveError α) Span
  changeCoefficients : (rows cols : List Nat) → List α → Action α τ ω (SolveError α) Unit
  addCone : ConeConstraint α → Action α τ ω (SolveError α) Nat

structure ConeRecord where
  index : Nat
  -- Rows of the problem.
  source : Span
  columns : Span
  -- The rows that tie the auxiliary columns.
  rows : Span
  -- The number of the constraint, if there had to be one.
  constraint : Option Nat
deriving DecidableEq

def ConeRecord.size (r : ConeRecord) : Nat :=
  r.source.length

inductive ConeMode where
  | auxiliary
  | substituted
deriving DecidableEq, Inhabited

namespace ConeMode

variable {α τ ω : Type}

def coneName (block : ConeBlock) : String :=
  "cone_" ++ toString block.index

def updatesConeRows : ConeMode → Bool
  | auxiliary => true
  | substituted => false

variable [Scalar α]

-- Columns `y` with `rows * x + y = rhs`. The first one is the apex and is not negative, which is
-- all there is to say of a cone of one row.
def addAuxiliary (target : ConeTarget α τ ω) (block : ConeBlock) (rows : RowBlock α)
    (rhs : List α) : Action α τ ω (SolveError α) ConeRecord := do
  let apexFirst ← match block.size with
    | 0 => Action.ofAttempt .fault
    | legs + 1 => pure (Bounds.nonnegative :: List.replicate legs Bounds.free)
  let columns ← target.addConeColumns block.index apexFirst
  let added ← target.addRows {
    senses := List.replicate block.size .equal
    rhs
    starts := rows.starts
    colIndices := rows.colIndices
    values := rows.values }
  target.changeCoefficients added.toList columns.toList (List.replicate block.size 1)
  let constraint ←
    if block.size ≤ 1 then pure none
    else match columns.toList with
      | [] => Action.ofAttempt .fault
      | apex :: legs => do
        let number ← target.addCone {
          name := some (coneName block)
          apex := .ofColumn apex
          legs := legs.map .ofColumn }
        pure (some number)
  return { index := block.index, source := block.rows, columns, rows := added, constraint }

def slack? (rows : RowBlock α) (rhs : List α) (i : Nat) : Option (AffineExpr α) := do
  let constant ← rhs[i]?
  let entries ← rows.row? i
  return { constant, terms := entries.map fun (j, v) => (j, -v) }

def addSubstituted (target : ConeTarget α τ ω) (block : ConeBlock) (rows : RowBlock α)
    (rhs : List α) : Action α τ ω (SolveError α) ConeRecord := do
  match ← Action.ofOption ((List.range block.size).mapM (slack? rows rhs)) with
  | [] => Action.ofAttempt .fault
  | apex :: legs =>
    let number ← target.addCone { name := some (coneName block), apex, legs }
    return {
      index := block.index
      source := block.rows
      columns := ⟨0, 0⟩
      rows := ⟨0, 0⟩
      constraint := some number }

def add (mode : ConeMode) (target : ConeTarget α τ ω) (block : ConeBlock) (rows : RowBlock α)
    (rhs : List α) : Action α τ ω (SolveError α) ConeRecord :=
  match mode with
  | auxiliary => addAuxiliary target block rows rhs
  | substituted => addSubstituted target block rows rhs

end ConeMode
end ConicProgram
