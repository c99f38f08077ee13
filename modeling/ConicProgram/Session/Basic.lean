import ConicProgram.Session.Record
import ConicProgram.Session.Settings
import ConicProgram.Warm.Plan

namespace ConicProgram

structure Capabilities where
  linear : Bool
  secondOrder : Bool
  mixedInteger : Bool
  semidefinite : Bool
  exponential : Bool

structure Session (α σ : Type) where
  settings : Settings
  cache : Cache α σ := {}

namespace Session

variable {α σ ω : Type} (opt : Optimizer α σ ω)

def capabilities : Capabilities where
  linear := true
  secondOrder := true
  mixedInteger := true
  semidefinite := false
  exponential := false

-- The name of the cache entry.
def name (s : Session α σ) : String :=
  s.settings.solverName.getD opt.name

-- Sets the controls for one solve. They start from their initial values; the output is switched
-- first, so that the options can switch it again.
def applyOptions (settings : Settings) (options : SolveOptions α) :
    Action α σ ω (OptimizerError α) Unit := do
  opt.resetControls
  if opt.hasControl (← Action.state) verboseControl then
    opt.setControl verboseControl (.flag settings.verbose)
  for (name, value) in options.controls.entries do
    opt.setControl name value
  for (name, value) in options.extra.entries do
    if opt.hasControl (← Action.state) name then
      opt.setControl name value
    else
      Action.record (.ignoredOption name)

def run (settings : Settings) (kind : ProblemKind) (options : SolveOptions α) :
    Action α (Instance σ) ω (SolveError α) (SolveRecord α) := do
  Instance.call (applyOptions opt settings options)
  Instance.call opt.solve
  let code := opt.status (← Action.state).optimizer
  match SolveStatus.ofCode? kind code with
  | none => Action.refuse (.unknownStatus kind code)
  | some status =>
    Action.record (.finished opt.name status code)
    Instance.extract opt status kind

def updateCache (f : Cache α σ → Cache α σ) : Action α (Session α σ) ω (SolveError α) Unit :=
  Action.modifyState fun s => { s with cache := f s.cache }

variable [Scalar α]

def solveCold (name : String) (p : Problem α) (kind : ProblemKind) (options : SolveOptions α) :
    Action α (Session α σ) ω (SolveError α) (SolveRecord α) := do
  let settings := (← Action.state).settings
  let loaded ← Instance.coldLoad opt p settings.coneMode
  let (record, solved) ← (run opt settings kind options).startOn loaded
  unless record.status = .failed do
    updateCache (·.store opt name solved p)
  return record

omit [Scalar α] in
def update (plan : Plan α) (settings : Settings) (kind : ProblemKind) (options : SolveOptions α) :
    Action α (Instance σ) ω (SolveError α) (SolveRecord α) := do
  Instance.call (plan.apply opt)
  run opt settings kind options

omit [Scalar α] in
-- Takes an instance back behind a plan, and puts the snapshot back into the cache if that succeeds.
def rollBack (name : String) (snapshot : Snapshot α σ) (plan : Plan α) (changed : Instance σ) :
    Action α (Session α σ) ω (SolveError α) Unit := do
  match ← (Instance.call (plan.revert opt)).runOn changed with
  | (.ok (), held) => updateCache (·.restore name { snapshot with held })
  | (.error (.refused cause), _) => Action.record (.dropped name cause)
  | (.error .fault, _) => Action.ofAttempt .fault

omit [Scalar α] in
-- The entry is out of the cache while its instance is changed. If the solve fails it is put back as
-- soon as the instance has been taken back, and is dropped if that fails as well.
def solveWarm (name : String) (snapshot : Snapshot α σ) (p : Problem α) (plan : Plan α)
    (kind : ProblemKind) (options : SolveOptions α) :
    Action α (Session α σ) ω (SolveError α) (SolveRecord α) := do
  let settings := (← Action.state).settings
  updateCache (·.erase name)
  Action.record (.warmStart name plan.objective.length plan.matrix.length plan.rhs.length
    plan.kinds.length)
  match ← (update opt plan settings kind options).runOn snapshot.held with
  | (.error .fault, _) => Action.ofAttempt .fault
  | (.error (.refused cause), changed) =>
    rollBack opt name snapshot plan changed
    Action.refuse cause
  | (.ok record, changed) =>
    if record.status = .failed then
      rollBack opt name snapshot plan changed
    else
      updateCache (·.store opt name changed p)
    return record

-- The plan that a warm start would follow, or why there is none.
def warmPlan (s : Session α σ) (p : Problem α) (warm : Bool) :
    Attempt Ineligible (Snapshot α σ × Plan α) :=
  if !warm then .refuse .notRequested
  else match s.cache.get? (s.name opt) with
    | none => .refuse .noSnapshot
    | some snapshot => do return (snapshot, ← snapshot.plan p)

def solve (p : Problem α) (warm : Bool) (options : SolveOptions α) :
    Action α (Session α σ) ω (SolveError α) (SolveRecord α) := do
  Action.ofAttempt (Attempt.mapCause .invalidProblem (.ofExcept p.validate))
  let kind := ProblemKind.ofMixedInteger p.isMixedInteger
  let s ← Action.state
  let name := s.name opt
  match s.warmPlan opt p warm with
  | .ok (snapshot, plan) => solveWarm opt name snapshot p plan kind options
  | .error .fault => Action.ofAttempt .fault
  | .error (.refused reason) =>
    Action.record (.coldStart name reason)
    solveCold opt name p kind options

end Session
end ConicProgram
