import ConicProgram.Control.Controls
import ConicProgram.Json.Record
import ConicProgram.Json.Writer
import ConicProgram.Session.Record
import ConicProgram.Session.Settings

namespace ConicProgram

open Json

-- A whole number where it fits 64 bits together with its sign, else a float.
def ControlValue.ofNumber : Reader.Number → ControlValue Float
  | .whole i =>
    if i ≤ Int64.maxValue.toInt then .int (Int64.ofInt i) else .real (Float.ofInt i)
  | .real x => .real x

-- A value of a control is written without its form. The form that it is read into is the first that
-- it fits among flags, whole numbers, numbers and texts.
def ControlValue.form : Form (ControlValue Float) where
  write
    | .flag b => writeBool b
    | .int i => writeInt i.toInt
    | .real x => writeFloat x
    | .text s => writeString s
  read := do
    match ← Reader.upcoming with
    | 't' | 'f' => return .flag (← .bool)
    | '"' => return .text (← .text)
    | _ => return .ofNumber (← .anyNumber)

def controlMap : Form (OrderedMap String (ControlValue Float)) where
  write m := writeObject (m.entries.map fun (name, value) => (name, ControlValue.form.write value))
  read := return .ofList (← .members ControlValue.form.read)

def SolveOptions.form : Form (SolveOptions Float) where
  write o := writeObject
    [("controls", controlMap.write o.controls), ("extra", controlMap.write o.extra)]
  read := .record
    [{ name := "controls", presence := .defaulted
       read := fun o => return { o with controls := ← controlMap.read } },
      { name := "extra", presence := .defaulted
        read := fun o => return { o with extra := ← controlMap.read } }] {}

namespace Controls

def count : Reader UInt32 :=
  return UInt32.ofNat (← .natBelow UInt32.size)

def field (name : ControlName) (read : Controls Float → Reader (Controls Float)) :
    RecordField (Controls Float) where
  name := name.text
  presence := .defaulted
  read

def fields : List (RecordField (Controls Float)) :=
  [field .verbose fun c => return { c with verbose := ← .bool },
    field .maxIterations fun c => return { c with maxIterations := ← count },
    field .timeLimit fun c => return { c with timeLimit := ← .float },
    field .gapAbsolute fun c => return { c with gapAbsolute := ← .float },
    field .gapRelative fun c => return { c with gapRelative := ← .float },
    field .feasibility fun c => return { c with feasibility := ← .float },
    field .infeasibilityAbsolute fun c => return { c with infeasibilityAbsolute := ← .float },
    field .infeasibilityRelative fun c => return { c with infeasibilityRelative := ← .float },
    field .presolve fun c => return { c with presolve := ← .bool },
    field .maxNodes fun c => return { c with maxNodes := ← count },
    field .integrality fun c => return { c with integrality := ← .float }]

def writeControl (c : Controls Float) : ControlName → List Char
  | .verbose => writeBool c.verbose
  | .maxIterations => writeNat c.maxIterations.toNat
  | .timeLimit => writeFloat c.timeLimit
  | .gapAbsolute => writeFloat c.gapAbsolute
  | .gapRelative => writeFloat c.gapRelative
  | .feasibility => writeFloat c.feasibility
  | .infeasibilityAbsolute => writeFloat c.infeasibilityAbsolute
  | .infeasibilityRelative => writeFloat c.infeasibilityRelative
  | .presolve => writeBool c.presolve
  | .maxNodes => writeNat c.maxNodes.toNat
  | .integrality => writeFloat c.integrality

def form : Form (Controls Float) where
  write c := writeObject (ControlName.all.map fun name => (name.text, writeControl c name))
  read := .record fields standard

end Controls

namespace ConeMode

def documentName : ConeMode → String
  | auxiliary => "AuxiliaryVariables"
  | substituted => "BackSubstitution"

def form : Form ConeMode where
  write mode := writeObject [(mode.documentName, writeNull)]
  read := .nameInObject ([auxiliary, substituted].map fun mode => (mode.documentName, mode))

end ConeMode

def Settings.form : Form Settings where
  write s := writeObject
    [("cone_mode", ConeMode.form.write s.coneMode), ("verbose", writeBool s.verbose),
      ("solver_name", writeOption writeString s.solverName)]
  read := .record
    [{ name := "cone_mode", presence := .defaulted
       read := fun s => return { s with coneMode := ← ConeMode.form.read } },
      { name := "verbose", presence := .defaulted
        read := fun s => return { s with verbose := ← .bool } },
      { name := "solver_name", presence := .defaulted
        read := fun s => return { s with solverName := ← .optional .text } }] {}

namespace SolveStatus

def documentName : SolveStatus → String
  | optimal => "Optimal"
  | infeasible => "Infeasible"
  | unbounded => "Unbounded"
  | failed => "SolverError"

def form : Form SolveStatus where
  write s := writeString s.documentName
  read := .name ([optimal, infeasible, unbounded, failed].map fun s => (s.documentName, s))

end SolveStatus

namespace ProblemKind

def documentName : ProblemKind → String
  | continuous => "Continuous"
  | mixedInteger => "MixedInteger"

def form : Form ProblemKind where
  write k := writeString k.documentName
  read := .name ([continuous, mixedInteger].map fun k => (k.documentName, k))

end ProblemKind

namespace SolveRecord

def fields : List (RecordField (SolveRecord Float)) :=
  [{ name := "status", presence := .required
     read := fun r => return { r with status := ← SolveStatus.form.read } },
    { name := "obj_val", presence := .nullable
      read := fun r => return { r with objective := ← .optional .float } },
    { name := "x", presence := .nullable
      read := fun r => return { r with primal := ← .optional (.list .float) } },
    { name := "eq_dual", presence := .nullable
      read := fun r => return { r with duals := ← .optional (.list .float) } },
    { name := "infeasible", presence := .required
      read := fun r => return { r with infeasible := ← .bool } }]

def form : Form (SolveRecord Float) where
  write r :=
    let floats := writeOption (writeArray writeFloat)
    writeObject
      [("status", SolveStatus.form.write r.status), ("obj_val", writeOption writeFloat r.objective),
        ("x", floats r.primal), ("eq_dual", floats r.duals),
        ("infeasible", writeBool r.infeasible)]
  read := .record fields (.withoutSolution .failed)

end SolveRecord
end ConicProgram
