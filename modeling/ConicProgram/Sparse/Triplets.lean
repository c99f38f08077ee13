import ConicProgram.Sparse.Matrix

namespace ConicProgram

namespace Triplet

variable {α : Type}

def before (s t : Triplet α) : Bool :=
  s.col < t.col || (s.col == t.col && s.row ≤ t.row)

def sameCell (s t : Triplet α) : Bool :=
  s.row == t.row && s.col == t.col

variable [Scalar α]

-- Adds to `t` those that follow it at its cell, and goes on behind them.
def gather (t : Triplet α) : List (Triplet α) → List (Triplet α)
  | [] => [t]
  | u :: us =>
    if t.sameCell u then gather { t with value := t.value + u.value } us else t :: gather u us

def mergeRuns : List (Triplet α) → List (Triplet α)
  | [] => []
  | t :: ts => gather t ts

end Triplet

namespace SparseMatrix

variable {α : Type} [Scalar α]

-- Values at one cell are added up in the order in which they are listed, so the sort has to be
-- stable.
def ofTriplets? (rows cols : Nat) (ts : List (Triplet α)) : Option (SparseMatrix α) :=
  if ts.all fun t => t.row < rows && t.col < cols then
    let cells := Triplet.mergeRuns (ts.mergeSort Triplet.before)
    some {
      rows
      cols
      starts := Starts.runningTotals 0 ((List.range cols).map (cells.map (·.col)).count)
      rowIndices := cells.map (·.row)
      values := cells.map (·.value)
    }
  else none

end SparseMatrix
end ConicProgram
