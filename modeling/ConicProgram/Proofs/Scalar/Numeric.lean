import Mathlib.Data.List.Forall2
import ConicProgram.Proofs.Scalar.Exact

namespace ConicProgram

def Scalar.IsNumber {α : Type} [Scalar α] (x : α) : Prop :=
  x == x

-- Of the arithmetic only those operations are named that keep a number as it is, up to its sign.
class Numeric (α : Type) [Scalar α] : Prop where
  symm {x y : α} : x == y → y == x
  trans {x y z : α} : x == y → y == z → x == z
  zero_isNumber : Scalar.IsNumber (0 : α)
  one_isNumber : Scalar.IsNumber (1 : α)
  neg_congr {x y : α} : x == y → -x == -y
  neg_neg {x : α} : Scalar.IsNumber x → - -x == x
  neg_zero : -(0 : α) == 0
  zero_add {x : α} : Scalar.IsNumber x → 0 + x == x
  one_mul_congr {x y : α} : x == y → 1 * x == 1 * y
  one_mul_zero : (1 : α) * 0 == 0
  neg_one_mul_congr {x y : α} : x == y → -1 * x == -1 * y
  neg_one_mul_zero : (-1 : α) * 0 == 0
  isNumber_of_lt {x y : α} : x < y → Scalar.IsNumber x ∧ Scalar.IsNumber y

namespace Numeric

variable {α : Type} [Scalar α] [Numeric α] {x y z : α} {xs ys zs : List α}

theorem comm : x == y ↔ y == x :=
  ⟨symm, symm⟩

theorem bne_comm : (x != y) = (y != x) := by
  rw [bne, bne, Bool.eq_iff_iff.mpr comm]

theorem neg_isNumber (h : Scalar.IsNumber x) : Scalar.IsNumber (-x) :=
  neg_congr h

theorem beq_of_neg (hx : Scalar.IsNumber x) (hy : Scalar.IsNumber y) (h : -x == -y) : x == y :=
  trans (symm (neg_neg hx)) (trans (neg_congr h) (neg_neg hy))

-- Lists of one length can only differ where they have elements, as behind them there are zeros.
theorem not_getD_beq_iff (h : xs.length = ys.length) {i : Nat} :
    ¬(xs.getD i 0 == ys.getD i 0) ↔ ∃ x y, xs[i]? = some x ∧ ys[i]? = some y ∧ x != y := by
  rw [List.getD_eq_getElem?_getD, List.getD_eq_getElem?_getD]
  by_cases hi : i < xs.length
  case pos =>
    rw [List.getElem?_eq_getElem hi, List.getElem?_eq_getElem (h ▸ hi)]
    simp [bne]
  case neg =>
    have hz : (0 : α) == 0 := zero_isNumber
    rw [List.getElem?_eq_none (by omega), List.getElem?_eq_none (by omega)]
    simp [hz]

end Numeric

section Exact

variable {K : Type} [Field K] [LinearOrder K] [FloorRing K]

attribute [local instance] Scalar.exact

theorem Scalar.isNumber_exact (x : K) : Scalar.IsNumber x :=
  beq_self_eq_true x

-- Exact numbers are equal only if they are the same.
instance Numeric.exact : Numeric K where
  symm h := beq_iff_eq.mpr (beq_iff_eq.mp h).symm
  trans h₁ h₂ := beq_iff_eq.mpr ((beq_iff_eq.mp h₁).trans (beq_iff_eq.mp h₂))
  zero_isNumber := Scalar.isNumber_exact 0
  one_isNumber := Scalar.isNumber_exact 1
  neg_congr h := by simpa using h
  neg_neg _ := by simp
  neg_zero := by simp
  zero_add _ := by simp
  one_mul_congr h := by simpa using h
  one_mul_zero := by simp
  neg_one_mul_congr h := by simpa using h
  neg_one_mul_zero := by simp
  isNumber_of_lt _ := ⟨Scalar.isNumber_exact _, Scalar.isNumber_exact _⟩

end Exact
end ConicProgram
