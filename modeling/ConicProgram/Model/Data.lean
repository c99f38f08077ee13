import ConicProgram.Model.Column

namespace ConicProgram

-- A linear problem in compressed columns: column `j` owns the places from `starts[j]` up to
-- `starts[j + 1]`.
structure LoadData (α : Type) where
  senses : List RowSense
  rhs : List α
  starts : List Nat
  rowIndices : List Nat
  values : List α
  lower : List α
  upper : List α
  objective : List α

namespace LoadData

variable {α : Type}

def rowCount (d : LoadData α) : Nat :=
  d.senses.length

def columnCount (d : LoadData α) : Nat :=
  d.objective.length

end LoadData

-- New rows in compressed rows: row `i` owns the places from `starts[i]` up to `starts[i + 1]`.
structure RowData (α : Type) where
  senses : List RowSense
  rhs : List α
  starts : List Nat
  colIndices : List Nat
  values : List α

end ConicProgram
