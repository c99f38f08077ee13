import ConicProgram.Sparse.Matrix

namespace ConicProgram.SparseMatrix

variable {α : Type} [Scalar α]

-- `scale * a * x + keep * y`, with the entries of the matrix added one by one in storage order.
def addProduct? (a : SparseMatrix α) (y x : List α) (scale keep : α) : Option (List α) := do
  guard (x.length = a.cols ∧ y.length = a.rows)
  let terms ← x.zipIdx.mapM fun (xj, j) => do
    return (← a.column? j).map fun (r, v) => (r, scale * v * xj)
  terms.flatten.foldlM (fun y (r, t) => if r < y.length then some (y.modify r (· + t)) else none)
    (y.map (· * keep))

end ConicProgram.SparseMatrix
