namespace ConicProgram

class Scalar (α : Type) extends
    Zero α, One α, Neg α, Add α, Sub α, Mul α, LT α, LE α, BEq α, OfScientific α where
  decLt : DecidableLT α
  decLe : DecidableLE α
  ofInt : Int → α
  floor : α → α
  ceil : α → α
  -- The nearest integer, a half going away from zero.
  round : α → α
  -- A duration without end, above every duration that a caller means.
  endless : α

attribute [reducible, instance] Scalar.decLt Scalar.decLe

instance : Scalar Float where
  zero := 0.0
  one := 1.0
  decLt := inferInstance
  decLe := inferInstance
  ofInt := Float.ofInt
  floor := Float.floor
  ceil := Float.ceil
  round := Float.round
  endless := 1.0 / 0.0

namespace Scalar

variable {α : Type} [Scalar α]

-- The comparisons are written so that a value that orders with nothing gives way to the limit.

-- The larger of the two, and `low` where `x` is no number.
def raise (low x : α) : α :=
  if low < x then x else low

-- The smaller of the two, and `high` where `x` is no number.
def lower (high x : α) : α :=
  if x < high then x else high

end Scalar
end ConicProgram
