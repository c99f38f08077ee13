import ConicProgram.Action
import ConicProgram.Control.Controls
import ConicProgram.Model.Cone
import ConicProgram.Model.Data
import ConicProgram.Span

namespace ConicProgram

def verboseControl : String :=
  "verbose"

-- All that lies above is defined for any such record. Rows and columns are those of the loaded
-- model, which may have more of them than the problem that it was made from.
structure Optimizer (α σ ω : Type) where
  name : String
  fresh : σ
  load : LoadData α → Action α σ ω (OptimizerError α) Unit
  addColumns : List (Bounds α) → Action α σ ω (OptimizerError α) Span
  addRows : RowData α → Action α σ ω (OptimizerError α) Span
  addCone : ConeConstraint α → Action α σ ω (OptimizerError α) Nat
  setObjective : List α → Action α σ ω (OptimizerError α) Unit
  changeObjective : (cols : List Nat) → List α → Action α σ ω (OptimizerError α) Unit
  -- A coefficient that is set to zero is no longer stored.
  changeCoefficients :
    (rows cols : List Nat) → List α → Action α σ ω (OptimizerError α) Unit
  changeRhs : (rows : List Nat) → List α → Action α σ ω (OptimizerError α) Unit
  changeKinds : (cols : List Nat) → List ColumnKind → Action α σ ω (OptimizerError α) Unit
  setControl : String → ControlValue α → Action α σ ω (OptimizerError α) Unit
  hasControl : σ → String → Bool
  -- Gives every control the value that it had in the beginning.
  resetControls : StateM (Context α σ ω) Unit
  solve : Action α σ ω (OptimizerError α) Unit
  status : σ → Int
  objectiveValue : σ → Option α
  primal : Action α σ ω (OptimizerError α) (List α)
  duals : Action α σ ω (OptimizerError α) (List α)
  kinds : σ → List ColumnKind
  rowCount : σ → Nat
  columnCount : σ → Nat
  coneCount : σ → Nat

end ConicProgram
