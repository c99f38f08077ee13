import ConicProgram.Control.Value

namespace ConicProgram

inductive Axis where
  | row
  | column
deriving DecidableEq

def Axis.text : Axis → String
  | row => "row"
  | column => "column"

inductive OptimizerError (α : Type) where
  | notLoaded
  -- Lists that should have one length do not, in the named part of the data.
  | dimension (part : String)
  | indexOutOfRange (axis : Axis) (index length : Nat)
  | unknownControl (name : String)
  | badControlValue (name : String) (value : ControlValue α)
  | engine (text : String)
  | noSolution (status : Int)
deriving BEq

namespace OptimizerError

def message : OptimizerError Float → String
  | notLoaded => "no problem has been loaded"
  | dimension part => "inconsistent dimensions in " ++ part
  | indexOutOfRange axis index length =>
    axis.text ++ s!" index {index} out of range ({length} available)"
  | unknownControl name => "unknown control \"" ++ name ++ "\""
  | badControlValue name value => "bad value for control \"" ++ name ++ "\": " ++ value.describe
  | engine text => "optimizer engine error: " ++ text
  | noSolution status => s!"no solution available (status {status})"

variable {α : Type}

def checkIndex (axis : Axis) (index length : Nat) : Except (OptimizerError α) Unit :=
  if index < length then .ok () else .error (.indexOutOfRange axis index length)

end OptimizerError
end ConicProgram
