import ConicProgram.Model.Basic
import ConicProgram.Sparse.Triplets

namespace ConicProgram

inductive Cone where
  | zero (size : Nat)
  | nonnegative (size : Nat)
  | secondOrder (size : Nat)
deriving DecidableEq

namespace Cone

def size : Cone → Nat
  | zero n | nonnegative n | secondOrder n => n

-- Two neighbours as one cone, if their product is a cone of the same kind.
def join? : Cone → Cone → Option Cone
  | zero m, zero n => some (zero (m + n))
  | nonnegative m, nonnegative n => some (nonnegative (m + n))
  | _, _ => none

def push (c : Cone) : List Cone → List Cone
  | [] => [c]
  | d :: ds =>
    match c.join? d with
    | some joined => joined :: ds
    | none => c :: d :: ds

def joinAll (cs : List Cone) : List Cone :=
  cs.foldr push []

variable {α : Type} [Scalar α]

def Contains : Cone → List α → Prop
  | zero n, s => s.length = n ∧ ∀ x ∈ s, x ≤ 0 ∧ 0 ≤ x
  | nonnegative n, s => s.length = n ∧ ∀ x ∈ s, 0 ≤ x
  | secondOrder n, s =>
    s.length = n ∧ ∃ apex legs, s = apex :: legs ∧ 0 ≤ apex ∧
      (legs.map fun x => x * x).foldl (· + ·) 0 ≤ apex * apex

def ProductContains : List Cone → List α → Prop
  | [], s => s = []
  | c :: cs, s => ∃ first rest, s = first ++ rest ∧ c.Contains first ∧ ProductContains cs rest

end Cone

structure SlackRow (α : Type) where
  terms : List (Nat × α)
  rhs : α

-- Rows whose slack lies in one cone.
structure SlackBlock (α : Type) where
  rows : List (SlackRow α)
  cone : Cone

-- The points `x` for which the slack `rhs - matrix * x` lies in the product of the cones. The
-- linear rows come first, then the bounds of the columns and the second-order constraints, so that
-- the multipliers of the linear rows are the first ones that an engine returns.
structure Assembled (α : Type) where
  matrix : SparseMatrix α
  rhs : List α
  cones : List Cone

variable {α : Type} [Scalar α]

namespace RowSense

-- What a row is multiplied by, so that its slack is the right-hand side less the value.
def direction : RowSense → α
  | equal | atMost => 1
  | atLeast => -1

def cone : RowSense → Cone
  | equal => .zero 1
  | atMost | atLeast => .nonnegative 1

end RowSense

def Row.block (r : Row α) : SlackBlock α where
  rows := [{
    terms := r.coefficients.entries.map fun (j, v) => (j, r.sense.direction * v)
    rhs := r.sense.direction * r.rhs }]
  cone := r.sense.cone

def Bounds.blocks (b : Bounds α) (col : Nat) : List (SlackBlock α) :=
  let block (coefficient rhs : α) : SlackBlock α := ⟨[⟨[(col, coefficient)], rhs⟩], .nonnegative 1⟩
  (if b.hasLower then [block (-1) (-b.lower)] else [])
    ++ if b.hasUpper then [block 1 b.upper] else []

def AffineExpr.slackRow (e : AffineExpr α) : SlackRow α where
  terms := e.terms.map fun (j, v) => (j, -v)
  rhs := e.constant

def ConeConstraint.block (c : ConeConstraint α) : SlackBlock α where
  rows := c.expressions.map (·.slackRow)
  cone := if c.legs.isEmpty then .nonnegative 1 else .secondOrder c.dimension

def SlackRow.triplets (i : Nat) : List (SlackRow α) → List (Triplet α)
  | [] => []
  | r :: rs => (r.terms.map fun (j, v) => ⟨i, j, v⟩) ++ triplets (i + 1) rs

namespace Model

def blocks (m : Model α) (bounds : List (Bounds α)) : List (SlackBlock α) :=
  m.rows.map (·.block) ++ (bounds.zipIdx.flatMap fun (b, j) => b.blocks j) ++ m.cones.map (·.block)

def assemble? (m : Model α) (bounds : List (Bounds α)) : Option (Assembled α) := do
  let blocks := m.blocks bounds
  let rows := blocks.flatMap (·.rows)
  let matrix ← SparseMatrix.ofTriplets? rows.length m.columnCount (SlackRow.triplets 0 rows)
  return { matrix, rhs := rows.map (·.rhs), cones := Cone.joinAll (blocks.map (·.cone)) }

-- The multipliers of the linear rows, with the sign that belongs to the row as it was stated.
def rowDuals (m : Model α) (multipliers : List α) : List α :=
  m.rows.zipWith (fun r z => match r.sense with
    | .atLeast => -z
    | .equal | .atMost => z) multipliers

end Model
end ConicProgram
