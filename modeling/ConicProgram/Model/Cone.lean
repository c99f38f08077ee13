import ConicProgram.Scalar

namespace ConicProgram

-- A constant and terms of a column and its coefficient. A column may occur more than once.
structure AffineExpr (α : Type) where
  constant : α
  terms : List (Nat × α) := []

namespace AffineExpr

variable {α : Type}

def addTerm (e : AffineExpr α) (col : Nat) (coefficient : α) : AffineExpr α :=
  { e with terms := e.terms ++ [(col, coefficient)] }

def lastColumn? (e : AffineExpr α) : Option Nat :=
  (e.terms.map (·.1)).max?

variable [Scalar α]

def ofColumn (col : Nat) : AffineExpr α :=
  ⟨0, [(col, 1)]⟩

def value (e : AffineExpr α) (x : Nat → α) : α :=
  e.terms.foldl (fun acc (j, v) => acc + v * x j) e.constant

end AffineExpr

-- The squares of the legs add up to no more than the square of the apex, which is not negative.
structure ConeConstraint (α : Type) where
  name : Option String := none
  apex : AffineExpr α
  legs : List (AffineExpr α)

namespace ConeConstraint

variable {α : Type}

def expressions (c : ConeConstraint α) : List (AffineExpr α) :=
  c.apex :: c.legs

def dimension (c : ConeConstraint α) : Nat :=
  1 + c.legs.length

variable [Scalar α]

def Holds (c : ConeConstraint α) (x : Nat → α) : Prop :=
  let apex := c.apex.value x
  0 ≤ apex ∧ (c.legs.map fun e => e.value x * e.value x).foldl (· + ·) 0 ≤ apex * apex

end ConeConstraint
end ConicProgram
