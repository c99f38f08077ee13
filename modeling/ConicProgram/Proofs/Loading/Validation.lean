import ConicProgram.Proofs.Loading.Cold
import ConicProgram.Proofs.Problem.WellFormed

namespace ConicProgram

namespace Instance

variable {α τ ω : Type} [Scalar α] {p : Problem α}

-- The first error of the validation is the one of the load.
theorem perform_coldLoad_of_error {cause : ProblemError} (h : p.validate = .error cause)
    (engine : Engine α ω) (mode : ConeMode) (c : Context α τ ω) :
    (coldLoad (ReferenceOptimizer.operations engine) p mode).perform c =
      (.error (.refused (.invalidProblem cause)), c) := by
  refine Action.perform_bind_of_error ?_
  rw [Action.perform_ofAttempt, h]
  rfl

-- Whatever the parts of a problem are, the check of its matrix reads no place that is not there.
-- The problem is loaded if it is well-formed, and is refused as invalid if it is not.
theorem coldLoad_validates (engine : Engine α ω) (mode : ConeMode) (hw : p.Indexable)
    (c : Context α τ ω) :
    p.matrix.checkFormat? = some p.matrix.checkFormat ∧
    (p.WellFormed ∧ (∃ s log, (coldLoad (ReferenceOptimizer.operations engine) p mode).perform c =
        (.ok s, { c with log })) ∨
      ¬p.WellFormed ∧ ∃ cause, p.validate = .error cause ∧
        (coldLoad (ReferenceOptimizer.operations engine) p mode).perform c =
          (.error (.refused (.invalidProblem cause)), c)) := by
  refine ⟨p.matrix.checkFormat?_eq, ?_⟩
  cases hv : p.validate
  case error cause =>
    refine .inr ⟨fun hp => ?_, cause, rfl, perform_coldLoad_of_error hv engine mode c⟩
    rw [Problem.validate_eq_ok_iff.mpr hp] at hv
    cases hv
  case ok =>
    have hp := Problem.validate_eq_ok_iff.mp hv
    have hy := (Problem.wellFormed_iff_valid.mp hp).yields_coldLoad engine mode hv hw c.state
    have ⟨log, hy⟩ := hy c.outside c.log
    exact .inl ⟨hp, _, log, hy⟩

section Falling

-- The first column would end behind the only entry.
def falling : Problem Float where
  objective := [1, 1]
  matrix := {
    rows := 1
    cols := 2
    starts := [0, 2, 1]
    rowIndices := [0]
    values := [1] }
  rhs := [1]
  partition := ⟨1, 0, []⟩

theorem indexable_falling : falling.Indexable where
  rows := by decide
  columns := by decide

theorem coldLoad_falling :
    falling.Indexable ∧ falling.matrix.checkFormat? = some (.error .badStarts) ∧
      ¬falling.WellFormed ∧
      ((coldLoad (ReferenceOptimizer.operations (ω := Unit) fun _ => pure (.error "down")) falling
        .auxiliary).perform ⟨(), (), []⟩).1 =
        .error (.refused (.invalidProblem (.badMatrix .badStarts))) := by
  have ⟨hc, h⟩ := coldLoad_validates (τ := Unit) (ω := Unit) (fun _ => pure (.error "down"))
    .auxiliary indexable_falling ⟨(), (), []⟩
  have hv : falling.validate = .error (.badMatrix .badStarts) := rfl
  rcases h with ⟨hp, _⟩ | ⟨hn, cause, hcause, h⟩
  · rw [Problem.validate_eq_ok_iff.mpr hp] at hv
    cases hv
  · cases hv.symm.trans hcause
    exact ⟨indexable_falling, hc, hn, congrArg Prod.fst h⟩

end Falling
end Instance
end ConicProgram
