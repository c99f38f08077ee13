import ConicProgram.Failure
import ConicProgram.Sparse.Format

namespace ConicProgram

structure EntryChange (α : Type) where
  row : Nat
  col : Nat
  old : α
  new : α
deriving DecidableEq

namespace EntryChange

variable {α : Type} [Scalar α]

def note (row col : Nat) (old new : α) : List (EntryChange α) :=
  if new != old then [⟨row, col, old, new⟩] else []

-- The changes of one column, from the new and the old entries in increasing row order.
def ofColumn (col : Nat) : (new old : List (Nat × α)) → List (EntryChange α)
  | [], [] => []
  | (r, v) :: new, [] => note r col 0 v ++ ofColumn col new []
  | [], (s, w) :: old => note s col w 0 ++ ofColumn col [] old
  | (r, v) :: new, (s, w) :: old =>
    match compare r s with
    | .lt => note r col 0 v ++ ofColumn col new ((s, w) :: old)
    | .gt => note s col w 0 ++ ofColumn col ((r, v) :: new) old
    | .eq => note r col w v ++ ofColumn col new old
termination_by new old => new.length + old.length

end EntryChange

namespace SparseMatrix

variable {α : Type} [Scalar α]

-- What changed from `old` to `a`, ordered by column and then by row.
def changesFrom (a old : SparseMatrix α) : Attempt FormatError (List (EntryChange α)) :=
  if a.size ≠ old.size then .refuse .incompatible
  else .ofOption do
    let _ ← old.columnIndices?
    let columns ← (← a.columnIndices?).mapM fun j => do
      return EntryChange.ofColumn j (← a.column? j) (← old.column? j)
    return columns.flatten

end SparseMatrix
end ConicProgram
