import Mathlib.Algebra.Order.Floor.Ring
import Mathlib.Data.Rat.Floor
import ConicProgram.Scalar

namespace ConicProgram

variable (K : Type) [Field K] [LinearOrder K] [FloorRing K]

-- A field has no number above all others. As with bounds, a magnitude that no data reaches will do.
abbrev Scalar.exact : Scalar K where
  decLt := inferInstance
  decLe := inferInstance
  ofInt := Int.cast
  floor x := ⌊x⌋
  ceil x := ⌈x⌉
  round x := if 0 ≤ x then ⌊x + 1 / 2⌋ else ⌈x - 1 / 2⌉
  endless := 1e20

variable {K}

attribute [local instance] Scalar.exact

theorem Scalar.exact_floor (x : K) : Scalar.floor x = (⌊x⌋ : K) :=
  rfl

theorem Scalar.exact_ceil (x : K) : Scalar.ceil x = (⌈x⌉ : K) :=
  rfl

theorem Scalar.exists_exact_round_eq (x : K) : ∃ z : ℤ, Scalar.round x = (z : K) := by
  simp only [Scalar.round]
  split <;> exact ⟨_, rfl⟩

theorem Scalar.exact_round_intCast [IsStrictOrderedRing K] (z : ℤ) : Scalar.round (z : K) = z := by
  have h₁ : ⌊(z : K) + 1 / 2⌋ = z := by
    rw [Int.floor_eq_iff]
    constructor <;> linarith
  have h₂ : ⌈(z : K) - 1 / 2⌉ = z := by
    rw [Int.ceil_eq_iff]
    constructor <;> linarith
  simp only [Scalar.round, h₁, h₂, ite_self]

end ConicProgram
