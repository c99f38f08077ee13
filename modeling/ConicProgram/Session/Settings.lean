import ConicProgram.Control.Value
import ConicProgram.Loading.ConeMode
import ConicProgram.OrderedMap
import ConicProgram.Text.Blank

namespace ConicProgram

structure Settings where
  coneMode : ConeMode := .auxiliary
  verbose : Bool := false
  -- The name of the cache entry, if it is not the name of the optimizer.
  solverName : Option String := none
deriving DecidableEq

namespace Settings

structure Draft where
  coneMode : Option ConeMode := none
  verbose : Option Bool := none
  solverName : Option String := none

inductive DraftError where
  | blankName
deriving DecidableEq

def DraftError.message : DraftError → String
  | blankName => "solver_name must not be empty"

def Draft.build (d : Draft) : Except DraftError Settings :=
  if d.solverName.any Text.allBlank then .error .blankName
  else
    let base : Settings := {}
    .ok {
      coneMode := d.coneMode.getD base.coneMode
      verbose := d.verbose.getD base.verbose
      solverName := d.solverName }

end Settings

structure SolveOptions (α : Type) where
  -- These go to the optimizer as they are.
  controls : OrderedMap String (ControlValue α) := .empty
  -- Of these only what the optimizer knows is used.
  extra : OrderedMap String (ControlValue α) := .empty

namespace SolveOptions

variable {α : Type}

def withControl (o : SolveOptions α) (name : String) (value : ControlValue α) : SolveOptions α :=
  { o with controls := o.controls.insert name value }

def withExtra (o : SolveOptions α) (name : String) (value : ControlValue α) : SolveOptions α :=
  { o with extra := o.extra.insert name value }

end SolveOptions
end ConicProgram
