import ConicProgram.Scalar

namespace ConicProgram

inductive RowSense where
  | equal
  | atMost
  | atLeast
deriving DecidableEq

inductive ColumnKind where
  | continuous
  | integer
  | binary
deriving DecidableEq, Inhabited

def ColumnKind.isDiscrete : ColumnKind → Bool
  | continuous => false
  | integer | binary => true

structure Bounds (α : Type) where
  lower : α
  upper : α

namespace Bounds

variable {α : Type} [Scalar α]

-- From this magnitude on a bound stands for no bound.
def unlimited : α :=
  1e20

def free : Bounds α :=
  ⟨-unlimited, unlimited⟩

def nonnegative : Bounds α :=
  ⟨0, unlimited⟩

def hasLower (b : Bounds α) : Bool :=
  -unlimited < b.lower

def hasUpper (b : Bounds α) : Bool :=
  b.upper < unlimited

def toUnit (b : Bounds α) : Bounds α :=
  ⟨Scalar.raise 0 b.lower, Scalar.lower 1 b.upper⟩

-- The point lies within those of the bounds that there are.
def Contains (b : Bounds α) (x : α) : Prop :=
  (b.hasLower → b.lower ≤ x) ∧ (b.hasUpper → x ≤ b.upper)

end Bounds

structure Column (α : Type) where
  bounds : Bounds α
  kind : ColumnKind

namespace Column

variable {α : Type} [Scalar α]

-- The bounds that the kind implies as well: binary columns lie between zero and one.
def effectiveBounds (c : Column α) : Bounds α :=
  match c.kind with
  | .binary => c.bounds.toUnit
  | .continuous | .integer => c.bounds

end Column
end ConicProgram
