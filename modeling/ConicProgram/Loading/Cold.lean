import ConicProgram.Loading.Instance

namespace ConicProgram

namespace Problem

variable {α : Type}

-- The discrete variables with their kinds, booleans first.
def discreteKinds (p : Problem α) : List (Nat × ColumnKind) :=
  p.booleans.map (·, .binary) ++ p.integers.map (·, .integer)

-- The kinds of the first `columns` columns. The last kind that is given to a column counts.
def columnKinds? (p : Problem α) (columns : Nat) : Option (List ColumnKind) :=
  p.discreteKinds.foldlM (fun kinds (j, kind) =>
    if j < kinds.length then some (kinds.set j kind) else none)
    (List.replicate columns .continuous)

variable [Scalar α]

def linearData (p : Problem α) : Attempt (SolveError α) (LoadData α) := do
  let span : Span := ⟨0, p.partition.linearRows⟩
  let linear ← .ofOption (p.matrix.selectRows? span)
  let coords ← .ofOption linear.colIndices?
  let starts ← Attempt.mapCause .invalidInput
    (.ofExcept (Starts.ofCoordinates (coords.map Int.ofNat) p.variableCount))
  let rhs ← .ofOption (span.slice? p.rhs)
  return {
    senses := List.replicate p.partition.equalities .equal
      ++ List.replicate p.partition.inequalities .atMost
    rhs
    starts
    rowIndices := linear.rowIndices
    values := linear.values
    lower := List.replicate p.variableCount (-Bounds.unlimited)
    upper := List.replicate p.variableCount Bounds.unlimited
    objective := p.objective }

def paddedObjective (p : Problem α) (columns : Nat) : List α :=
  p.objective.take columns ++ List.replicate (columns - p.objective.length) 0

end Problem

namespace Instance

variable {α σ τ ω : Type} [Scalar α] (opt : Optimizer α σ ω)

def addBlock (p : Problem α) (block : ConeBlock) : Action α (Instance σ) ω (SolveError α) Unit := do
  let rows ← Action.ofOption (p.matrix.rowBlock? block.rows)
  let rhs ← Action.ofOption (block.rows.slice? p.rhs)
  let record ← (← Action.state).mode.add (target opt) block rows rhs
  Action.modifyState (addRecord record)

-- The kinds come before the cones, as those columns are the first ones. The objective comes last,
-- when all columns are there to be counted.
def fill (p : Problem α) (linear : LoadData α) : Action α (Instance σ) ω (SolveError α) Unit := do
  call (opt.load linear)
  let (cols, kinds) := p.discreteKinds.unzip
  unless cols.isEmpty do
    call (opt.changeKinds cols kinds)
  p.partition.blocks.forM (addBlock opt p)
  let s ← Action.state
  call (opt.setObjective (p.paddedObjective s.columnCount))
  Action.record (.coldLoaded s.columnCount (s.columnCount - p.variableCount) p.partition.linearRows
    s.cones.length)

def coldLoad (p : Problem α) (mode : ConeMode) : Action α τ ω (SolveError α) (Instance σ) := do
  Action.ofAttempt (Attempt.mapCause .invalidProblem (.ofExcept p.validate))
  let linear ← Action.ofAttempt p.linearData
  let start := blank opt.fresh mode p.variableCount p.partition.linearRows
  return (← (fill opt p linear).startOn start).2

end Instance
end ConicProgram
