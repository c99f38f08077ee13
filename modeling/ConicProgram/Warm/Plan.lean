import ConicProgram.Sparse.Change
import ConicProgram.Warm.Snapshot

namespace ConicProgram

structure ValueChange (α : Type) where
  index : Nat
  old : α
  new : α

structure KindChange where
  column : Nat
  old : ColumnKind
  new : ColumnKind
deriving DecidableEq

-- The changes that take a cached instance from the problem that it holds to another one. With old
-- and new values exchanged they take it back.
structure Plan (α : Type) where
  objective : List (ValueChange α) := []
  matrix : List (EntryChange α) := []
  rhs : List (ValueChange α) := []
  kinds : List KindChange := []

def ValueChange.reversed {α : Type} (c : ValueChange α) : ValueChange α :=
  { c with old := c.new, new := c.old }

def EntryChange.reversed {α : Type} (c : EntryChange α) : EntryChange α :=
  { c with old := c.new, new := c.old }

def KindChange.reversed (c : KindChange) : KindChange :=
  { c with old := c.new, new := c.old }

def ValueChange.between {α : Type} [BEq α] (old new : List α) : List (ValueChange α) :=
  (old.zip new).zipIdx.filterMap fun ((old, new), index) =>
    if old != new then some { index, old, new } else none

def KindChange.between (old new : List ColumnKind) : List KindChange :=
  (old.zip new).zipIdx.filterMap fun ((old, new), column) =>
    if old ≠ new then some { column, old, new } else none

namespace Plan

variable {α σ ω : Type}

def isEmpty (p : Plan α) : Bool :=
  p.objective.isEmpty && p.matrix.isEmpty && p.rhs.isEmpty && p.kinds.isEmpty

def length (p : Plan α) : Nat :=
  p.objective.length + p.matrix.length + p.rhs.length + p.kinds.length

def reversed (p : Plan α) : Plan α where
  objective := p.objective.map (·.reversed)
  matrix := p.matrix.map (·.reversed)
  rhs := p.rhs.map (·.reversed)
  kinds := p.kinds.map (·.reversed)

-- Gives an optimizer the new values, in one call for each group that is not empty.
def apply (p : Plan α) (opt : Optimizer α σ ω) : Action α σ ω (OptimizerError α) Unit := do
  unless p.objective.isEmpty do
    opt.changeObjective (p.objective.map (·.index)) (p.objective.map (·.new))
  unless p.matrix.isEmpty do
    opt.changeCoefficients (p.matrix.map (·.row)) (p.matrix.map (·.col)) (p.matrix.map (·.new))
  unless p.rhs.isEmpty do
    opt.changeRhs (p.rhs.map (·.index)) (p.rhs.map (·.new))
  unless p.kinds.isEmpty do
    opt.changeKinds (p.kinds.map (·.column)) (p.kinds.map (·.new))

def revert (p : Plan α) (opt : Optimizer α σ ω) : Action α σ ω (OptimizerError α) Unit :=
  p.reversed.apply opt

end Plan

namespace Snapshot

variable {α σ : Type}

def realize (s : Snapshot α σ) (row : Nat) : Attempt Ineligible Nat :=
  match s.held.realizedRow? row with
  | some i => .ok i
  | none => .refuse (.coneRowChange row)

def checkShape (s : Snapshot α σ) (p : Problem α) : Except Ineligible Unit :=
  let rows (q : Partition) := (q.equalities, q.inequalities)
  if s.objective.length ≠ p.variableCount then
    .error (.variableCount s.objective.length p.variableCount)
  else if rows s.partition ≠ rows p.partition then
    .error (.linearRows (rows s.partition) (rows p.partition))
  else if s.partition.cones ≠ p.partition.cones then .error .coneSizes
  else .ok ()

variable [Scalar α]

-- The changes from the problem of the snapshot to another one. The objective and the matrix are
-- compared only where they are declared to change, the right-hand side and the kinds of the columns
-- always.
def plan (s : Snapshot α σ) (p : Problem α) : Attempt Ineligible (Plan α) := do
  Attempt.ofExcept (s.checkShape p)
  let objective :=
    if p.parameters.objective then ValueChange.between s.objective p.objective else []
  let changed ←
    if p.parameters.constraints then
      Attempt.mapCause (fun _ => .matrixShape) (p.matrix.changesFrom s.matrix)
    else pure []
  let matrix ← changed.mapM fun c => do return { c with row := ← s.realize c.row }
  let rhs ← (ValueChange.between s.rhs p.rhs).mapM fun c => do
    return { c with index := ← s.realize c.index }
  let desired ← .ofOption (p.columnKinds? p.variableCount)
  return { objective, matrix, rhs, kinds := KindChange.between s.kinds desired }

end Snapshot
end ConicProgram
