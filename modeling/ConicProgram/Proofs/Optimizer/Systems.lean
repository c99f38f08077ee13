import ConicProgram.Proofs.Model.Feasibility
import ConicProgram.Proofs.Optimizer.Operations

namespace ConicProgram.ReferenceOptimizer

variable {K ω : Type} [Field K] [LinearOrder K] [FloorRing K] [IsStrictOrderedRing K]

attribute [local instance] Scalar.exact

-- With one pair of bounds for each column there is a system, and its slack at a point lies in the
-- cones exactly if the point satisfies the rows, each in its sense, and the constraints, and lies
-- within the bounds.
theorem assemble?_admits_iff {engine : Engine K ω}
    {c : Context K (ReferenceOptimizer K) (ω × List (EngineCall K))} {m : Model K}
    {bounds : List (Bounds K)} (hc : Reached engine c) (hm : c.state.model = some m)
    (hl : bounds.length = m.columnCount) :
    ∃ a, m.assemble? bounds = some a ∧ a.Fits m.columnCount ∧
      ∀ x : Nat → K, a.Admits x ↔ m.Satisfied x ∧
        ∀ (j : Nat) (b : Bounds K), bounds[j]? = some b → b.Contains (x j) := by
  have hin := (hc.closed m hm).toInside
  have ⟨a, ha, hfits⟩ := hin.exists_fits hl.le
  have ⟨b, hb, htotals⟩ := Model.exists_totals (hin.below_slackRows hl.le)
  cases ha.symm.trans hb
  exact ⟨a, ha, hfits, fun _ => htotals.admits_iff hin hl.le⟩

section Mixed

-- A row of each sense, a constraint that names a column twice in the apex and in the leg, and one
-- without legs.
def mixed : Model ℚ where
  rows := [⟨.atMost, 2, .ofList [(0, 1), (1, 1)]⟩, ⟨.equal, 3, .ofList [(0, 1), (1, 2)]⟩,
    ⟨.atLeast, 1, .ofList [(0, 1)]⟩]
  columns := [⟨⟨0, Bounds.unlimited⟩, .continuous⟩, ⟨⟨-Bounds.unlimited, 1⟩, .continuous⟩]
  objective := [1, 1]
  cones := [⟨none, ⟨1, [(0, 1), (0, 1)]⟩, [⟨0, [(1, 1), (1, 1)]⟩]⟩, ⟨none, .ofColumn 1, []⟩]

def mixedContext : Context ℚ (ReferenceOptimizer ℚ) (Unit × List (EngineCall ℚ)) :=
  operate (operations (Engine.recorded fun _ => pure (.error "down")))
    ⟨withControls .standard, ((), []), []⟩ [
      .load {
        senses := [.atMost]
        rhs := [2]
        starts := [0, 0, 0]
        rowIndices := []
        values := []
        lower := [0, -Bounds.unlimited]
        upper := [Bounds.unlimited, 1]
        objective := [1, 1] },
      .addRows {
        senses := [.equal, .atLeast]
        rhs := [3, 1]
        starts := [0, 0, 0]
        colIndices := []
        values := [] },
      .changeCoefficients [0, 0, 1, 1, 2] [0, 1, 0, 1, 0] [1, 1, 1, 2, 1],
      .addCone { apex := ⟨1, [(0, 1), (0, 1)]⟩, legs := [⟨0, [(1, 1), (1, 1)]⟩] },
      .addCone { apex := .ofColumn 1, legs := [] }]

theorem model_mixedContext : mixedContext.state.model = some mixed :=
  rfl

theorem satisfied_mixed : mixed.Satisfied fun _ => 1 := by
  have h₁ : (OrderedMap.ofList [(0, (1 : ℚ)), (1, 1)]).entries = [(0, 1), (1, 1)] := rfl
  have h₂ : (OrderedMap.ofList [(0, (1 : ℚ)), (1, 2)]).entries = [(0, 1), (1, 2)] := rfl
  have h₃ : (OrderedMap.ofList [(0, (1 : ℚ))]).entries = [(0, 1)] := rfl
  norm_num [Model.Satisfied, mixed, Row.Holds, Row.value, ConeConstraint.Holds, AffineExpr.value,
    AffineExpr.ofColumn, h₁, h₂, h₃]

-- With bounds of another branch. The point with ones lies on the last of them, and is admitted.
theorem assemble?_admits_iff_mixed :
    ∃ a, mixedContext.state.model = some mixed ∧
      mixed.assemble? [⟨-Bounds.unlimited, 1⟩, ⟨0, 1⟩] = some a ∧ a.Fits 2 ∧
      a.Admits fun _ => 1 := by
  have hc : Reached (fun _ => pure (.error "down")) mixedContext := ⟨_, _, _, _, rfl⟩
  have hl : [(⟨-Bounds.unlimited, 1⟩ : Bounds ℚ), ⟨0, 1⟩].length = mixed.columnCount := rfl
  have ⟨a, ha, hfits, hx⟩ := assemble?_admits_iff hc model_mixedContext hl
  refine ⟨a, model_mixedContext, ha, hfits, (hx _).mpr ⟨satisfied_mixed, ?_⟩⟩
  rintro (_ | _ | j) b hb <;> cases hb
  · exact ⟨fun h => by norm_num [Bounds.hasLower] at h, fun _ => le_rfl⟩
  · exact ⟨fun _ => zero_le_one, fun _ => le_rfl⟩

end Mixed
end ConicProgram.ReferenceOptimizer
