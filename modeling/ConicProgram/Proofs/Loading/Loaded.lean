import ConicProgram.Loading.Cold
import ConicProgram.Proofs.Model.Rows
import ConicProgram.Proofs.Optimizer.Reference

namespace ConicProgram

-- The constraint that the given expressions lie in a second-order cone.
def ConeBlock.constraint {α : Type} (b : ConeBlock) :
    List (AffineExpr α) → List (ConeConstraint α)
  | [] => []
  | apex :: legs => [{ name := some (ConeMode.coneName b), apex, legs }]

theorem ConeBlock.length_constraint {α : Type} (b : ConeBlock) (es : List (AffineExpr α)) :
    (b.constraint es).length = min 1 es.length := by
  cases es <;> simp [constraint]

theorem ConeBlock.expressions_of_mem_constraint {α : Type} {b : ConeBlock}
    {es : List (AffineExpr α)} {c : ConeConstraint α} (h : c ∈ b.constraint es) :
    c.expressions = es := by
  cases es
  case nil => cases h
  case cons e es =>
    cases List.mem_singleton.mp h
    rfl

namespace Problem

variable {α : Type} [Scalar α] (p : Problem α)

-- The kinds of the variables. The last kind that is given to a column counts.
def kinds : List ColumnKind :=
  p.discreteKinds.foldl (fun kinds (j, kind) => kinds.set j kind)
    (List.replicate p.variableCount .continuous)

def sense (i : Nat) : RowSense :=
  if p.partition.equalities ≤ i ∧ i < p.partition.linearRows then .atMost else .equal

def row (i : Nat) : Row α :=
  .ofEntries (p.sense i) (p.rhs.getD i 0) (p.matrix.row i)

def slackColumn (i : Nat) : Nat :=
  p.variableCount + (i - p.partition.linearRows)

-- Row `i` with its slack as a column of its own.
def tiedRow (i : Nat) : Row α :=
  (p.row i).setCoefficient (p.slackColumn i) 1

-- The slack of row `i` as an expression in the variables.
def slack (i : Nat) : AffineExpr α where
  constant := p.rhs.getD i 0
  terms := (p.matrix.row i).map fun (j, v) => (j, -v)

-- What stands for row `i` in a constraint.
def expression : ConeMode → Nat → AffineExpr α
  | .auxiliary, i => .ofColumn (p.slackColumn i)
  | .substituted, i => p.slack i

-- The slacks of a cone have an apex that is not negative, and legs.
def slackBounds : Nat → List (Bounds α)
  | 0 => []
  | legs + 1 => .nonnegative :: List.replicate legs .free

def linearRowList : List (Row α) :=
  (List.range p.partition.linearRows).map p.row

def structuralColumns : List (Column α) :=
  p.kinds.map (⟨.free, ·⟩)

-- The model of the linear rows and the given cone blocks.
def loadedWith : ConeMode → List ConeBlock → Model α
  | .auxiliary, blocks => {
      rows := p.linearRowList ++ blocks.flatMap (·.rows.toList.map p.tiedRow)
      columns := p.structuralColumns ++
        blocks.flatMap fun b => (slackBounds b.size).map (⟨·, .continuous⟩)
      objective := p.objective ++ List.replicate (blocks.map (·.size)).sum 0
      cones := blocks.flatMap fun b =>
        if b.size ≤ 1 then []
        else b.constraint (b.rows.toList.map fun i => .ofColumn (p.slackColumn i)) }
  | .substituted, blocks => {
      rows := p.linearRowList
      columns := p.structuralColumns
      objective := p.objective
      cones := blocks.flatMap fun b => b.constraint (b.rows.toList.map p.slack) }

def loaded (mode : ConeMode) : Model α :=
  p.loadedWith mode p.partition.blocks

-- The number that the next constraint would get before block `b` is added.
def constraintCount (mode : ConeMode) (b : ConeBlock) : Nat :=
  (p.loadedWith mode (p.partition.blocks.take b.index)).cones.length

def coneRecord : ConeMode → ConeBlock → ConeRecord
  | .auxiliary, b => {
      index := b.index
      source := b.rows
      columns := ⟨p.slackColumn b.start, p.slackColumn b.start + b.size⟩
      rows := b.rows
      constraint := if b.size ≤ 1 then none else some (p.constraintCount .auxiliary b) }
  | .substituted, b => {
      index := b.index
      source := b.rows
      columns := ⟨0, 0⟩
      rows := ⟨0, 0⟩
      constraint := some (p.constraintCount .substituted b) }

def coneOrigins : ConeMode → List ConeBlock → List ColumnOrigin
  | .auxiliary, blocks => blocks.flatMap fun b => (List.range b.size).map (.cone b.index)
  | .substituted, _ => []

def columnTable (mode : ConeMode) (blocks : List ConeBlock) : ColumnTable where
  origins := (List.range p.variableCount).map .structural ++ coneOrigins mode blocks
  structurals := p.variableCount

-- The instance that holds the linear rows and the given cone blocks.
def instanceWith (mode : ConeMode) (blocks : List ConeBlock) :
    Instance (ReferenceOptimizer α) where
  optimizer := .holding default (p.loadedWith mode blocks)
  mode
  columns := p.columnTable mode blocks
  cones := blocks.map (p.coneRecord mode)
  linearRows := p.partition.linearRows

def loadedInstance (mode : ConeMode) : Instance (ReferenceOptimizer α) :=
  p.instanceWith mode p.partition.blocks

section Lengths

variable {p}

theorem length_foldl_set (ks : List (Nat × ColumnKind)) (kinds : List ColumnKind) :
    (ks.foldl (fun kinds (j, kind) => kinds.set j kind) kinds).length = kinds.length := by
  induction ks generalizing kinds
  case nil => rfl
  case cons k ks hi => rw [List.foldl_cons, hi, List.length_set]

omit [Scalar α] in
theorem length_kinds : p.kinds.length = p.variableCount := by
  rw [kinds, length_foldl_set, List.length_replicate]

theorem length_slackBounds (size : Nat) : (slackBounds size : List (Bounds α)).length = size := by
  cases size <;> simp [slackBounds]

theorem columnCount_loadedWith_auxiliary (blocks : List ConeBlock) :
    (p.loadedWith .auxiliary blocks).columnCount =
      p.variableCount + (blocks.map (·.size)).sum := by
  simp [Model.columnCount, loadedWith, structuralColumns, length_kinds, List.length_flatMap,
    length_slackBounds]

theorem columnCount_loadedWith_substituted (blocks : List ConeBlock) :
    (p.loadedWith .substituted blocks).columnCount = p.variableCount := by
  simp [Model.columnCount, loadedWith, structuralColumns, length_kinds]

-- The constraints are counted alike in all problems.
theorem length_cones_loadedWith (q : Problem α) (mode : ConeMode) (blocks : List ConeBlock) :
    (p.loadedWith mode blocks).cones.length = (q.loadedWith mode blocks).cones.length := by
  cases mode <;> simp only [loadedWith, List.length_flatMap]
  case auxiliary =>
    congr 2
    funext b
    split <;> simp [ConeBlock.length_constraint]
  case substituted => simp only [ConeBlock.length_constraint, List.length_map]

theorem length_linearRowList : p.linearRowList.length = p.partition.linearRows := by
  simp [linearRowList]

end Lengths
end Problem
end ConicProgram
