import ConicProgram.Event
import ConicProgram.Failure

namespace ConicProgram

structure Context (α σ ω : Type) where
  state : σ
  outside : ω
  log : List (Event α)

-- An action that fails still leaves its context as it has become by then.
abbrev Action (α σ ω ε β : Type) := ExceptT (Failure ε) (StateM (Context α σ ω)) β

namespace Action

variable {α σ τ ω ε δ β : Type}

def perform (a : Action α σ ω ε β) (c : Context α σ ω) : Attempt ε β × Context α σ ω :=
  a.run.run c

def ofAttempt : Attempt ε β → Action α σ ω ε β
  | .ok b => pure b
  | .error e => throw e

def ofOption (b : Option β) : Action α σ ω ε β :=
  ofAttempt (.ofOption b)

def ofExcept (b : Except ε β) : Action α σ ω ε β :=
  ofAttempt (.ofExcept b)

def refuse (cause : ε) : Action α σ ω ε β :=
  ofAttempt (.refuse cause)

def record (e : Event α) : Action α σ ω ε Unit :=
  modify fun c => { c with log := c.log ++ [e] }

def state : Action α σ ω ε σ :=
  return (← get).state

def modifyState (f : σ → σ) : Action α σ ω ε Unit :=
  modify fun c => { c with state := f c.state }

def setState (s : σ) : Action α σ ω ε Unit :=
  modifyState fun _ => s

def ask (question : StateM ω β) : Action α σ ω ε β :=
  modifyGet fun c =>
    let (answer, outside) := question.run c.outside
    (answer, { c with outside })

def mapCause (f : ε → δ) (a : Action α σ ω ε β) : Action α σ ω δ β :=
  ExceptT.mk do return Attempt.mapCause f (← a.run)

-- Runs an action on another state, with the same things outside and the same log. What has become
-- of that state is part of the result, however the action ends.
def runOn (s : σ) (a : Action α σ ω ε β) : Action α τ ω δ (Attempt ε β × σ) :=
  modifyGet fun c =>
    let (result, c') := a.perform { c with state := s }
    ((result, c'.state), { c' with state := c.state })

-- Runs an action on another state, which is lost if the action fails.
def startOn (s : σ) (a : Action α σ ω ε β) : Action α τ ω ε (β × σ) := do
  let (result, s) ← a.runOn s
  return (← ofAttempt result, s)

def within (part : τ → σ) (replace : σ → τ → τ) (a : Action α σ ω ε β) : Action α τ ω ε β := do
  let (result, s) ← a.runOn (part (← state))
  modifyState (replace s)
  ofAttempt result

end Action
end ConicProgram
