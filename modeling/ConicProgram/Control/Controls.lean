import ConicProgram.Control.Value

namespace ConicProgram

structure Controls (α : Type) where
  verbose : Bool
  maxIterations : UInt32
  -- In seconds, for each relaxation.
  timeLimit : α
  gapAbsolute : α
  gapRelative : α
  feasibility : α
  infeasibilityAbsolute : α
  infeasibilityRelative : α
  presolve : Bool
  maxNodes : UInt32
  -- How far from an integer a discrete column may lie.
  integrality : α
deriving BEq

inductive ControlName where
  | verbose
  | maxIterations
  | timeLimit
  | gapAbsolute
  | gapRelative
  | feasibility
  | infeasibilityAbsolute
  | infeasibilityRelative
  | presolve
  | maxNodes
  | integrality
deriving DecidableEq

namespace ControlName

def text : ControlName → String
  | verbose => "verbose"
  | maxIterations => "max_iter"
  | timeLimit => "time_limit"
  | gapAbsolute => "tol_gap_abs"
  | gapRelative => "tol_gap_rel"
  | feasibility => "tol_feas"
  | infeasibilityAbsolute => "tol_infeas_abs"
  | infeasibilityRelative => "tol_infeas_rel"
  | presolve => "presolve_enable"
  | maxNodes => "mip_max_nodes"
  | integrality => "mip_int_tol"

def all : List ControlName :=
  [verbose, maxIterations, timeLimit, gapAbsolute, gapRelative, feasibility, infeasibilityAbsolute,
    infeasibilityRelative, presolve, maxNodes, integrality]

-- The control that is set under a name.
def ofText? : String → Option ControlName
  | "verbose" => some verbose
  | "max_iter" => some maxIterations
  | "time_limit" => some timeLimit
  | "tol_gap_abs" => some gapAbsolute
  | "tol_gap_rel" => some gapRelative
  | "tol_feas" => some feasibility
  | "tol_infeas_abs" => some infeasibilityAbsolute
  | "tol_infeas_rel" => some infeasibilityRelative
  | "presolve_enable" => some presolve
  | "mip_max_nodes" => some maxNodes
  | "mip_int_tol" => some integrality
  | _ => none

-- The names that are announced to be those of a control.
def names : List String :=
  ["verbose", "max_iter", "time_limit", "tol_gap_abs", "tol_gap_rel", "tol_feas", "tol_infeas_abs",
    "tol_infeas_rel", "presolve_enable", "mip_max_nodes", "mip_int_tol"]

def isKnown (name : String) : Bool :=
  names.contains name

theorem ofText?_text (n : ControlName) : ofText? n.text = some n := by
  cases n <;> rfl

theorem text_of_ofText? {name : String} {n : ControlName} (h : ofText? name = some n) :
    n.text = name := by
  unfold ofText? at h
  split at h <;> cases h <;> rfl

end ControlName

namespace Controls

variable {α : Type} [Scalar α]

def standard : Controls α where
  verbose := false
  maxIterations := 200
  timeLimit := Scalar.endless
  gapAbsolute := 1e-8
  gapRelative := 1e-8
  feasibility := 1e-8
  infeasibilityAbsolute := 1e-8
  infeasibilityRelative := 1e-8
  presolve := true
  maxNodes := 10000
  integrality := 1e-6

def positive? (v : ControlValue α) : Option α :=
  v.asNumber.filter (0 < ·)

-- Strictly between zero and a half, so that a number is near one integer at most.
def nearness? (v : ControlValue α) : Option α :=
  v.asNumber.filter fun x => 0 < x && x < 0.5

def set? (c : Controls α) (name : ControlName) (v : ControlValue α) : Option (Controls α) :=
  match name with
  | .verbose => v.asFlag.map fun x => { c with verbose := x }
  | .maxIterations => v.asCount.map fun x => { c with maxIterations := x }
  | .timeLimit => (positive? v).map fun x => { c with timeLimit := x }
  | .gapAbsolute => (positive? v).map fun x => { c with gapAbsolute := x }
  | .gapRelative => (positive? v).map fun x => { c with gapRelative := x }
  | .feasibility => (positive? v).map fun x => { c with feasibility := x }
  | .infeasibilityAbsolute => (positive? v).map fun x => { c with infeasibilityAbsolute := x }
  | .infeasibilityRelative => (positive? v).map fun x => { c with infeasibilityRelative := x }
  | .presolve => v.asFlag.map fun x => { c with presolve := x }
  | .maxNodes => v.asCount.map fun x => { c with maxNodes := x }
  | .integrality => (nearness? v).map fun x => { c with integrality := x }

structure Draft (α : Type) where
  verbose : Option Bool := none
  maxIterations : Option UInt32 := none
  timeLimit : Option α := none
  gapAbsolute : Option α := none
  gapRelative : Option α := none
  feasibility : Option α := none
  infeasibilityAbsolute : Option α := none
  infeasibilityRelative : Option α := none
  presolve : Option Bool := none
  maxNodes : Option UInt32 := none
  integrality : Option α := none

inductive DraftError where
  | notPositive (name : ControlName)
  | integralityOutOfRange
deriving DecidableEq

def DraftError.message : DraftError → String
  | notPositive name => name.text ++ " must be positive"
  | integralityOutOfRange => ControlName.integrality.text ++ " must lie in (0, 0.5)"

namespace Draft

def tolerances (d : Draft α) : List (ControlName × Option α) :=
  [(.gapAbsolute, d.gapAbsolute), (.gapRelative, d.gapRelative), (.feasibility, d.feasibility),
    (.infeasibilityAbsolute, d.infeasibilityAbsolute),
    (.infeasibilityRelative, d.infeasibilityRelative), (.timeLimit, d.timeLimit)]

-- Refuses what is known to be out of range.
def validate (d : Draft α) : Except DraftError Unit :=
  match d.tolerances.find? fun (_, x) => x.any (· ≤ 0) with
  | some (name, _) => .error (.notPositive name)
  | none =>
    if d.integrality.any fun x => x ≤ 0 || 0.5 ≤ x then .error .integralityOutOfRange else .ok ()

def build (d : Draft α) : Except DraftError (Controls α) := do
  d.validate
  let base : Controls α := standard
  return {
    verbose := d.verbose.getD base.verbose
    maxIterations := d.maxIterations.getD base.maxIterations
    timeLimit := d.timeLimit.getD base.timeLimit
    gapAbsolute := d.gapAbsolute.getD base.gapAbsolute
    gapRelative := d.gapRelative.getD base.gapRelative
    feasibility := d.feasibility.getD base.feasibility
    infeasibilityAbsolute := d.infeasibilityAbsolute.getD base.infeasibilityAbsolute
    infeasibilityRelative := d.infeasibilityRelative.getD base.infeasibilityRelative
    presolve := d.presolve.getD base.presolve
    maxNodes := d.maxNodes.getD base.maxNodes
    integrality := d.integrality.getD base.integrality
  }

end Draft
end Controls
end ConicProgram
