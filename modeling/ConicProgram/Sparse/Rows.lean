import ConicProgram.Sparse.Matrix

namespace ConicProgram

structure RowBlock (α : Type) where
  count : Nat
  -- Row `i` owns the places from `starts[i]` up to `starts[i + 1]`.
  starts : List Nat
  colIndices : List Nat
  values : List α
deriving DecidableEq

namespace RowBlock

variable {α : Type}

def size? (b : RowBlock α) : Option Nat :=
  b.starts[b.count]?

def row? (b : RowBlock α) (i : Nat) : Option (List (Nat × α)) := do
  let first ← b.starts[i]?
  let stop ← b.starts[i + 1]?
  if first ≤ stop ∧ stop ≤ b.colIndices.length ∧ stop ≤ b.values.length then
    return ((b.colIndices.zip b.values).drop first).take (stop - first)
  else none

structure Filling (α : Type) where
  -- Where the next entry of each row goes.
  next : List Nat
  colIndices : List Nat
  values : List α
deriving DecidableEq

namespace Filling

def put? (f : Filling α) (t : Triplet α) : Option (Filling α) := do
  let place ← f.next[t.row]?
  guard (place < f.colIndices.length ∧ place < f.values.length)
  return {
    next := f.next.modify t.row (· + 1)
    colIndices := f.colIndices.set place t.col
    values := f.values.set place t.value
  }

end Filling
end RowBlock

namespace SparseMatrix

variable {α : Type}

-- The entries of column `j` that lie in the given rows, with rows counted from the first of these.
def columnWithin? (a : SparseMatrix α) (rows : Span) (j : Nat) : Option (List (Nat × α)) := do
  let span ← a.columnSpan? j
  let indices ← span.read? a.rowIndices
  (indices.zipIdx span.start).filterMapM fun (r, p) =>
    if r ∈ rows then do return some (r - rows.start, ← a.values[p]?) else some none

variable [Scalar α]

-- The matrix of the given rows. Room is made for every row index in the range, wherever it is
-- stored, so what the columns do not own is left over as zeros.
def selectRows? (a : SparseMatrix α) (rows : Span) : Option (SparseMatrix α) := do
  guard (rows.start ≤ rows.stop ∧ rows.stop ≤ a.rows)
  let columns ← (← a.columnIndices?).mapM (a.columnWithin? rows)
  let kept := columns.flatten
  let room := a.rowIndices.countP (· ∈ rows)
  guard (kept.length ≤ room)
  let left := room - kept.length
  return {
    rows := rows.length
    cols := a.cols
    starts := Starts.runningTotals 0 (columns.map List.length)
    rowIndices := kept.map (·.1) ++ List.replicate left 0
    values := kept.map (·.2) ++ List.replicate left 0
  }

def row (a : SparseMatrix α) (i : Nat) : List (Nat × α) :=
  a.entries.filterMap fun t => if t.row = i then some (t.col, t.value) else none

-- The given rows in row order. The entries are taken column after column, and each goes behind
-- those of its row that are there already.
def rowBlock? (a : SparseMatrix α) (rows : Span) : Option (RowBlock α) := do
  let sub ← a.selectRows? rows
  let starts ← (Starts.ofCoordinates (sub.rowIndices.map Int.ofNat) rows.length).toOption
  let count ← sub.count?
  let room : RowBlock.Filling α := ⟨starts, List.replicate count 0, List.replicate count 0⟩
  let filled ← sub.entries.foldlM RowBlock.Filling.put? room
  return { count := rows.length, starts, colIndices := filled.colIndices, values := filled.values }

end SparseMatrix
end ConicProgram
