namespace ConicProgram

-- Optimizers report in one of two vocabularies, which give the same numbers different meanings.
inductive ContinuousStatus where
  | unstarted
  | optimal
  | infeasible
  | cutoff
  | unfinished
  | unbounded
  | dualCutoff
  | unsolved
  | nonconvex
deriving DecidableEq

namespace ContinuousStatus

def all : List ContinuousStatus :=
  [unstarted, optimal, infeasible, cutoff, unfinished, unbounded, dualCutoff, unsolved, nonconvex]

def code : ContinuousStatus → Int
  | unstarted => 0
  | optimal => 1
  | infeasible => 2
  | cutoff => 3
  | unfinished => 4
  | unbounded => 5
  | dualCutoff => 6
  | unsolved => 7
  | nonconvex => 8

end ContinuousStatus

inductive DiscreteStatus where
  | notLoaded
  -- The relaxation at the root was not solved.
  | rootUnsolved
  -- The relaxation at the root was solved, and nothing more.
  | rootSolved
  | noSolutionFound
  -- There is a solution that may not be the best one.
  | solution
  | infeasible
  | optimal
  | unbounded
deriving DecidableEq

namespace DiscreteStatus

def all : List DiscreteStatus :=
  [notLoaded, rootUnsolved, rootSolved, noSolutionFound, solution, infeasible, optimal, unbounded]

def code : DiscreteStatus → Int
  | notLoaded => 0
  | rootUnsolved => 1
  | rootSolved => 2
  | noSolutionFound => 3
  | solution => 4
  | infeasible => 5
  | optimal => 6
  | unbounded => 7

end DiscreteStatus

inductive ProblemKind where
  | continuous
  | mixedInteger
deriving DecidableEq

namespace ProblemKind

def ofMixedInteger (isMixedInteger : Bool) : ProblemKind :=
  if isMixedInteger then mixedInteger else continuous

def text : ProblemKind → String
  | continuous => "continuous"
  | mixedInteger => "mixed-integer"

end ProblemKind

inductive SolveStatus where
  | optimal
  | infeasible
  | unbounded
  | failed
deriving DecidableEq

namespace SolveStatus

def hasSolution (s : SolveStatus) : Bool :=
  s = optimal

def text : SolveStatus → String
  | optimal => "optimal"
  | infeasible => "infeasible"
  | unbounded => "unbounded"
  | failed => "solver_error"

def ofContinuous : ContinuousStatus → SolveStatus
  | .optimal => optimal
  | .infeasible => infeasible
  | .unbounded => unbounded
  | .unstarted | .cutoff | .unfinished | .dualCutoff | .unsolved | .nonconvex => failed

def ofDiscrete : DiscreteStatus → SolveStatus
  | .optimal => optimal
  | .infeasible => infeasible
  | .unbounded => unbounded
  | .notLoaded | .rootUnsolved | .rootSolved | .noSolutionFound | .solution => failed

def table : ProblemKind → List (Int × SolveStatus)
  | .continuous => ContinuousStatus.all.map fun s => (s.code, ofContinuous s)
  | .mixedInteger => DiscreteStatus.all.map fun s => (s.code, ofDiscrete s)

def ofCode? (kind : ProblemKind) (code : Int) : Option SolveStatus :=
  (table kind).lookup code

theorem ofCode?_continuous (s : ContinuousStatus) :
    ofCode? .continuous s.code = some (ofContinuous s) := by
  cases s <;> rfl

theorem ofCode?_mixedInteger (s : DiscreteStatus) :
    ofCode? .mixedInteger s.code = some (ofDiscrete s) := by
  cases s <;> rfl

end SolveStatus
end ConicProgram
