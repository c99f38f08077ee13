import ConicProgram.Failure
import ConicProgram.Model.Cone
import ConicProgram.Model.Data
import ConicProgram.Optimizer.Error
import ConicProgram.OrderedMap
import ConicProgram.Sparse.Starts
import ConicProgram.Span
import ConicProgram.Vector

namespace ConicProgram

structure Row (α : Type) where
  sense : RowSense
  rhs : α
  -- By column. What is not stored is zero.
  coefficients : OrderedMap Nat α

namespace Row

variable {α : Type} [Scalar α]

def coefficient (r : Row α) (col : Nat) : α :=
  (r.coefficients.get? col).getD 0

def addCoefficient (r : Row α) (col : Nat) (v : α) : Row α :=
  { r with coefficients := r.coefficients.insert col (r.coefficient col + v) }

def setCoefficient (r : Row α) (col : Nat) (v : α) : Row α :=
  if v == 0 then { r with coefficients := r.coefficients.erase col }
  else { r with coefficients := r.coefficients.insert col v }

def value (r : Row α) (x : Nat → α) : α :=
  r.coefficients.entries.foldl (fun acc (j, v) => acc + v * x j) 0

def Holds (r : Row α) (x : Nat → α) : Prop :=
  match r.sense with
  | .equal => r.value x ≤ r.rhs ∧ r.rhs ≤ r.value x
  | .atMost => r.value x ≤ r.rhs
  | .atLeast => r.rhs ≤ r.value x

end Row

structure Model (α : Type) where
  rows : List (Row α)
  columns : List (Column α)
  objective : List α
  cones : List (ConeConstraint α)

namespace Model

variable {α : Type}

def rowCount (m : Model α) : Nat :=
  m.rows.length

def columnCount (m : Model α) : Nat :=
  m.columns.length

def hasDiscrete (m : Model α) : Bool :=
  m.columns.any (·.kind.isDiscrete)

def checkRow (m : Model α) (i : Nat) : Except (OptimizerError α) Unit :=
  OptimizerError.checkIndex .row i m.rowCount

def checkColumn (m : Model α) (j : Nat) : Except (OptimizerError α) Unit :=
  OptimizerError.checkIndex .column j m.columnCount

variable [Scalar α]

def columnBounds (m : Model α) : List (Bounds α) :=
  m.columns.map (·.effectiveBounds)

-- The objective at a point that may have more coordinates than there are columns.
def objectiveAt? (m : Model α) (x : List α) : Option α := do
  guard (m.columnCount ≤ x.length)
  Vector.dot? m.objective (x.take m.columnCount)

-- The point satisfies the rows and the second-order constraints.
def Satisfied (m : Model α) (x : Nat → α) : Prop :=
  (∀ r ∈ m.rows, r.Holds x) ∧ ∀ c ∈ m.cones, c.Holds x

section Loading

def addColumnEntries (d : LoadData α) (rows : List (Row α)) (j : Nat) :
    Attempt (OptimizerError α) (List (Row α)) := do
  let first ← .ofOption d.starts[j]?
  let stop ← .ofOption d.starts[j + 1]?
  (Span.toList ⟨first, stop⟩).foldlM (fun rows p => do
    let i ← .ofOption d.rowIndices[p]?
    Attempt.ofExcept (OptimizerError.checkIndex .row i d.rowCount)
    let row ← .ofOption rows[i]?
    let v ← .ofOption d.values[p]?
    return rows.set i (row.addCoefficient j v)) rows

def ofLoadData (d : LoadData α) : Attempt (OptimizerError α) (Model α) := do
  if d.rhs.length ≠ d.rowCount then
    .refuse (.dimension "rhs")
  else if d.lower.length ≠ d.columnCount ∨ d.upper.length ≠ d.columnCount then
    .refuse (.dimension "column bounds")
  else if !Starts.fits d.starts d.columnCount d.rowIndices.length
      || d.rowIndices.length != d.values.length then
    .refuse (.dimension "column starts")
  else
    let blank := d.senses.zipWith (fun sense rhs => { sense, rhs, coefficients := .empty }) d.rhs
    let rows ← (List.range d.columnCount).foldlM (addColumnEntries d) blank
    return {
      rows
      columns := d.lower.zipWith (fun lower upper => ⟨⟨lower, upper⟩, .continuous⟩) d.upper
      objective := d.objective
      cones := []
    }

end Loading

section Growing

def addColumns (m : Model α) (bounds : List (Bounds α)) : Model α :=
  let columns := m.columns ++ bounds.map fun b => ⟨b, .continuous⟩
  { m with
    columns
    objective := m.objective.take columns.length
      ++ List.replicate (columns.length - m.objective.length) 0 }

def checkRowData (d : RowData α) : Except (OptimizerError α) Unit :=
  if d.rhs.length ≠ d.senses.length ∨ !Starts.fits d.starts d.senses.length d.colIndices.length
      ∨ d.colIndices.length ≠ d.values.length then
    .error (.dimension "row starts")
  else .ok ()

def newRow (m : Model α) (d : RowData α) (i : Nat) (sense : RowSense) (rhs : α) :
    Attempt (OptimizerError α) (Row α) := do
  let first ← .ofOption d.starts[i]?
  let stop ← .ofOption d.starts[i + 1]?
  (Span.toList ⟨first, stop⟩).foldlM (fun row p => do
    let j ← .ofOption d.colIndices[p]?
    Attempt.ofExcept (m.checkColumn j)
    let v ← .ofOption d.values[p]?
    return row.addCoefficient j v) { sense, rhs, coefficients := .empty }

def addRows (m : Model α) (d : RowData α) : Attempt (OptimizerError α) (Model α) := do
  let rows ← (d.senses.zip d.rhs).zipIdx.mapM fun ((sense, rhs), i) => m.newRow d i sense rhs
  return { m with rows := m.rows ++ rows }

def addCone (m : Model α) (c : ConeConstraint α) : Except (OptimizerError α) (Model α) := do
  c.expressions.forM fun e => e.lastColumn?.forM m.checkColumn
  return { m with cones := m.cones ++ [c] }

end Growing

inductive Write (α : Type) where
  | objective (col : Nat) (value : α)
  | coefficient (row col : Nat) (value : α)
  | rhs (row : Nat) (value : α)
  | kind (col : Nat) (value : ColumnKind)

section Writing

def replaced (xs : List α) (i : Nat) (x : α) : Attempt (OptimizerError α) (List α) :=
  if i < xs.length then .ok (xs.set i x) else .fault

def write (m : Model α) : Write α → Attempt (OptimizerError α) (Model α)
  | .objective col v => do
    Attempt.ofExcept (m.checkColumn col)
    return { m with objective := ← replaced m.objective col v }
  | .coefficient row col v => do
    Attempt.ofExcept (m.checkRow row)
    Attempt.ofExcept (m.checkColumn col)
    return { m with rows := m.rows.modify row (·.setCoefficient col v) }
  | .rhs row v => do
    Attempt.ofExcept (m.checkRow row)
    return { m with rows := m.rows.modify row fun r => { r with rhs := v } }
  | .kind col v => do
    Attempt.ofExcept (m.checkColumn col)
    return { m with columns := m.columns.modify col fun c => { c with kind := v } }

-- The writes one after the other, up to the first that fails.
def writeAll (m : Model α) : List (Write α) → Attempt (OptimizerError α) Unit × Model α
  | [] => (.ok (), m)
  | w :: ws =>
    match m.write w with
    | .ok m => m.writeAll ws
    | .error e => (.error e, m)

end Writing
end Model
end ConicProgram
