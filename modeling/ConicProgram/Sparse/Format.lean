import ConicProgram.Sparse.Matrix

namespace ConicProgram

inductive FormatError where
  | incompatible
  | badRow
  | badStarts
deriving DecidableEq

namespace FormatError

def message : FormatError → String
  | incompatible => "Matrix dimension fields and/or array lengths are incompatible"
  | badRow => "Row value exceeds the matrix row dimension or is out of order"
  | badStarts => "Bad column pointer values"

end FormatError

namespace SparseMatrix

variable {α : Type}

def columnRows (a : SparseMatrix α) (j : Nat) : List Nat :=
  let first := a.starts.getD j 0
  (a.rowIndices.drop first).take (a.starts.getD (j + 1) 0 - first)

def checkFormat (a : SparseMatrix α) : Except FormatError Unit :=
  if a.rowIndices.length ≠ a.values.length then .error .incompatible
  else if a.starts.length ≠ a.cols + 1 ∨ a.starts[a.cols]? ≠ some a.rowIndices.length then
    .error .incompatible
  else if a.starts[0]? ≠ some 0 ∨ !Starts.consecutive (· ≤ ·) a.starts then .error .badStarts
  else if !(List.range a.cols).all fun j => Starts.consecutive (· < ·) (a.columnRows j) then
    .error .badRow
  else if !a.rowIndices.all (· < a.rows) then .error .badRow
  else .ok ()

end SparseMatrix
end ConicProgram
