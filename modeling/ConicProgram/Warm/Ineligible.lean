namespace ConicProgram

inductive Ineligible where
  | notRequested
  | noSnapshot
  | variableCount (cached requested : Nat)
  | linearRows (cached requested : Nat × Nat)
  | coneSizes
  | matrixShape
  | coneRowChange (row : Nat)
deriving DecidableEq

namespace Ineligible

def pair : Nat × Nat → String
  | (first, second) => s!"({first}, {second})"

def message : Ineligible → String
  | notRequested => "warm start not requested"
  | noSnapshot => "no cached problem"
  | variableCount cached requested => s!"variable count changed from {cached} to {requested}"
  | linearRows cached requested =>
    "linear rows changed from " ++ pair cached ++ " to " ++ pair requested ++ " (eq, leq)"
  | coneSizes => "cone sizes changed"
  | matrixShape => "constraint matrix shape changed"
  | coneRowChange row =>
    s!"row {row} inside a cone changed, which the cached instance cannot absorb"

-- Nothing was declined, as there was nothing to use or no wish to use it.
def isColdStart : Ineligible → Bool
  | notRequested | noSnapshot => true
  | _ => false

end Ineligible
end ConicProgram
