import ConicProgram.Scalar
import ConicProgram.Span
import ConicProgram.Sparse.Starts

namespace ConicProgram

structure Triplet (α : Type) where
  row : Nat
  col : Nat
  value : α
deriving DecidableEq

-- The parts need not fit together. An operation that reads a place which is not there has no
-- result.
structure SparseMatrix (α : Type) where
  rows : Nat
  cols : Nat
  -- Column `j` owns the places from `starts[j]` up to `starts[j + 1]`.
  starts : List Nat
  rowIndices : List Nat
  values : List α
deriving DecidableEq, BEq

namespace SparseMatrix

variable {α : Type}

def ofParts? (rows cols : Nat) (starts rowIndices : List Nat) (values : List α) :
    Option (SparseMatrix α) :=
  if rowIndices.length = values.length ∧ starts.length = cols + 1
      ∧ starts[cols]? = some rowIndices.length then
    some { rows, cols, starts, rowIndices, values }
  else none

section Blank

variable [Scalar α]

-- Room for `count` entries, all of them zeros in row `0` of the last column.
def withRoom (rows cols count : Nat) : SparseMatrix α where
  rows
  cols
  starts := List.replicate cols 0 ++ [count]
  rowIndices := List.replicate count 0
  values := List.replicate count 0

def zeros (rows cols : Nat) : SparseMatrix α :=
  withRoom rows cols 0

end Blank

def size (a : SparseMatrix α) : Nat × Nat :=
  (a.rows, a.cols)

def count? (a : SparseMatrix α) : Option Nat :=
  a.starts[a.cols]?

-- Two views of what is stored, total and meant for matrices whose parts fit together.

def column (a : SparseMatrix α) (j : Nat) : List (Nat × α) :=
  let first := a.starts.getD j 0
  let length := a.starts.getD (j + 1) 0 - first
  ((a.rowIndices.zip a.values).drop first).take length

def entries (a : SparseMatrix α) : List (Triplet α) :=
  (List.range a.cols).flatMap fun j => (a.column j).map fun (r, v) => ⟨r, j, v⟩

-- The same for parts that may not fit, with every place that is read looked up.

def columnIndices? (a : SparseMatrix α) : Option (List Nat) :=
  if a.cols = 0 ∨ a.cols < a.starts.length then some (List.range a.cols) else none

def columnSpan? (a : SparseMatrix α) (j : Nat) : Option Span := do
  return ⟨← a.starts[j]?, ← a.starts[j + 1]?⟩

def column? (a : SparseMatrix α) (j : Nat) : Option (List (Nat × α)) := do
  let span ← a.columnSpan? j
  return (← span.read? a.rowIndices).zip (← span.read? a.values)

def colIndices? (a : SparseMatrix α) : Option (List Nat) := do
  let _ ← a.count?
  let lengths ← (a.starts.zip a.starts.tail).mapM fun (first, stop) =>
    if first ≤ stop then some (stop - first) else none
  return lengths.zipIdx.flatMap fun (length, j) => List.replicate length j

end SparseMatrix
end ConicProgram
