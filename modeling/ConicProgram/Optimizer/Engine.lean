import ConicProgram.Action
import ConicProgram.Control.Controls
import ConicProgram.Model.Assembly

namespace ConicProgram

structure EngineSettings (α : Type) where
  verbose : Bool
  maxIterations : UInt32
  timeLimit : α
  gapAbsolute : α
  gapRelative : α
  feasibility : α
  infeasibilityAbsolute : α
  infeasibilityRelative : α
  presolve : Bool

def Controls.engineSettings {α : Type} (c : Controls α) : EngineSettings α :=
  { c with }

-- Minimise `objective * x` over the points `x` whose slack `rhs - matrix * x` lies in the cones.
structure EngineCall (α : Type) where
  objective : List α
  matrix : SparseMatrix α
  rhs : List α
  cones : List Cone
  settings : EngineSettings α

inductive EngineStatus where
  | unsolved
  | solved
  | primalInfeasible
  | dualInfeasible
  | almostSolved
  | almostPrimalInfeasible
  | almostDualInfeasible
  | maxIterations
  | maxTime
  | numericalError
  | insufficientProgress
  | callbackTerminated
deriving DecidableEq

structure EngineReply (α : Type) where
  status : EngineStatus
  primal : List α
  dual : List α
  objective : α

-- An engine may refuse a call with a text of its own.
abbrev Engine (α ω : Type) := EngineCall α → StateM ω (Except String (EngineReply α))

inductive Outcome where
  | solved
  | infeasible
  | unbounded
  | stopped
  | failed
  | notRun
deriving DecidableEq

namespace Outcome

def ofEngine : EngineStatus → Outcome
  | .solved | .almostSolved => solved
  | .primalInfeasible | .almostPrimalInfeasible => infeasible
  | .dualInfeasible | .almostDualInfeasible => unbounded
  | .maxIterations | .maxTime | .callbackTerminated => stopped
  | .numericalError | .insufficientProgress => failed
  | .unsolved => notRun

def status : Outcome → ContinuousStatus
  | solved => .optimal
  | infeasible => .infeasible
  | unbounded => .unbounded
  | stopped => .unfinished
  | failed => .unsolved
  | notRun => .unstarted

end Outcome

structure Relaxation (α : Type) where
  outcome : Outcome
  primal : List α
  dual : List α
  objective : α

variable {α σ ω : Type} [Scalar α]

-- Solves the model with the given bounds as if all columns were continuous. A system without rows
-- and columns needs no engine.
def Model.relax (m : Model α) (engine : Engine α ω) (controls : Controls α)
    (bounds : List (Bounds α)) : Action α σ ω (OptimizerError α) (Relaxation α) := do
  let system ← Action.ofOption (m.assemble? bounds)
  if m.columnCount = 0 ∧ system.rhs.isEmpty then
    return { outcome := .solved, primal := [], dual := [], objective := 0 }
  else
    let call : EngineCall α := {
      objective := m.objective
      matrix := system.matrix
      rhs := system.rhs
      cones := system.cones
      settings := controls.engineSettings }
    match ← Action.ask (engine call) with
    | .error text => Action.refuse (.engine text)
    | .ok reply =>
      return {
        outcome := .ofEngine reply.status
        primal := reply.primal
        dual := reply.dual
        objective := reply.objective }

end ConicProgram
