namespace ConicProgram

-- A fault stands for an assertion that does not hold or an index outside of its list. It is kept
-- apart from the causes that a caller is told, so that the absence of faults can be stated.
inductive Failure (ε : Type) where
  | fault
  | refused (cause : ε)
deriving DecidableEq

abbrev Attempt (ε β : Type) := Except (Failure ε) β

namespace Attempt

variable {ε δ β : Type}

def fault : Attempt ε β :=
  .error .fault

def refuse (cause : ε) : Attempt ε β :=
  .error (.refused cause)

def ofOption : Option β → Attempt ε β
  | some b => .ok b
  | none => fault

def ofExcept : Except ε β → Attempt ε β
  | .ok b => .ok b
  | .error cause => refuse cause

def mapCause (f : ε → δ) : Attempt ε β → Attempt δ β
  | .ok b => .ok b
  | .error .fault => fault
  | .error (.refused cause) => refuse (f cause)

end Attempt
end ConicProgram
