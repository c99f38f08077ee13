import ConicProgram.Proofs.Problem.Valid
import ConicProgram.Proofs.Scalar.Numeric
import ConicProgram.Proofs.Sparse.Entries

namespace ConicProgram

variable {α : Type} [Scalar α]

namespace SparseMatrix

theorem isNumber_entry [Numeric α] {a : SparseMatrix α} (hf : a.checkFormat = .ok ())
    (hv : ∀ v ∈ a.values, Scalar.IsNumber v) (i j : Nat) : Scalar.IsNumber (a.entry i j) := by
  have ⟨cs, ha, _⟩ := exists_ofColumns hf
  rw [ha, entry_ofColumns, entryAt]
  rw [ha] at hv
  cases hl : (cs.getD j []).lookup i
  case none => exact Numeric.zero_isNumber
  case some v =>
    have hm := mem_of_lookup hl
    rw [List.getD_eq_getElem?_getD] at hm
    cases hc : cs[j]?
    case none => simp [hc] at hm
    case some c =>
      rw [hc] at hm
      exact hv v (List.mem_map.mpr ⟨_, List.mem_flatten.mpr ⟨c, List.mem_of_getElem? hc, hm⟩, rfl⟩)

end SparseMatrix

theorem isNumber_getD [Numeric α] {xs : List α} (h : ∀ x ∈ xs, Scalar.IsNumber x) (i : Nat) :
    Scalar.IsNumber (xs.getD i 0) := by
  rw [List.getD_eq_getElem?_getD]
  cases hx : xs[i]?
  case none => exact Numeric.zero_isNumber
  case some x => exact h x (List.mem_of_getElem? hx)

namespace Problem

structure Numbers (p : Problem α) : Prop where
  objective : ∀ x ∈ p.objective, Scalar.IsNumber x
  matrix    : ∀ x ∈ p.matrix.values, Scalar.IsNumber x
  rhs       : ∀ x ∈ p.rhs, Scalar.IsNumber x

-- The problems have the same variables and the same division of their rows.
structure Similar {α : Type} (p q : Problem α) : Prop where
  columns   : p.variableCount = q.variableCount
  partition : p.partition = q.partition

variable {p q : Problem α}

omit [Scalar α] in
theorem Similar.symm (h : p.Similar q) : q.Similar p :=
  ⟨h.columns.symm, h.partition.symm⟩

omit [Scalar α] in
theorem Similar.trans {r : Problem α} (h₁ : p.Similar q) (h₂ : q.Similar r) : p.Similar r :=
  ⟨h₁.columns.trans h₂.columns, h₁.partition.trans h₂.partition⟩

omit [Scalar α] in
theorem Similar.rowCount (h : p.Similar q) (hp : p.Valid) (hq : q.Valid) :
    p.rowCount = q.rowCount := by
  rw [← hp.rows, ← hq.rows, h.partition]

theorem Valid.isNumber_entry [Numeric α] (h : p.Valid) (hn : p.Numbers) (i j : Nat) :
    Scalar.IsNumber (p.matrix.entry i j) :=
  SparseMatrix.isNumber_entry h.format hn.matrix i j

end Problem
end ConicProgram
