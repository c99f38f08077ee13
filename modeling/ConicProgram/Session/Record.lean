import ConicProgram.Loading.Instance

namespace ConicProgram

structure SolveRecord (α : Type) where
  status : SolveStatus
  objective : Option α
  primal : Option (List α)
  -- The multipliers of the linear rows of a continuous problem.
  duals : Option (List α)
  infeasible : Bool

namespace SolveRecord

variable {α : Type}

def withoutSolution (status : SolveStatus) : SolveRecord α where
  status
  objective := none
  primal := none
  duals := none
  infeasible := status = .infeasible

end SolveRecord

namespace Instance

variable {α σ ω : Type} (opt : Optimizer α σ ω)

def extract (status : SolveStatus) (kind : ProblemKind) :
    Action α (Instance σ) ω (SolveError α) (SolveRecord α) := do
  if !status.hasSolution then
    return .withoutSolution status
  else
    let s ← Action.state
    let x ← call opt.primal
    let duals ← match kind with
      | .continuous => do
        let y ← call opt.duals
        pure (some (y.take s.linearRows))
      | .mixedInteger => pure none
    return {
      status
      objective := opt.objectiveValue (← Action.state).optimizer
      primal := some (x.take s.variableCount)
      duals
      infeasible := false }

end Instance
end ConicProgram
