import ConicProgram.Optimizer.Error
import ConicProgram.Problem.Basic
import ConicProgram.Sparse.Starts
import ConicProgram.Status

namespace ConicProgram

inductive SolveError (α : Type) where
  | invalidInput (cause : IndexError)
  | invalidProblem (cause : ProblemError)
  | rejected (cause : OptimizerError α)
  | unknownStatus (kind : ProblemKind) (code : Int)

def SolveError.message : SolveError Float → String
  | invalidInput cause => "invalid input: " ++ cause.message
  | invalidProblem cause => "invalid problem: " ++ cause.message
  | rejected cause => "optimizer rejected the call: " ++ cause.message
  | unknownStatus kind code => "unknown " ++ kind.text ++ s!" status code {code}"

end ConicProgram
