import ConicProgram.Proofs.Session.Launching
import ConicProgram.Proofs.Text.Bytes

namespace ConicProgram

namespace Session

variable {α ω : Type} [Scalar α] {engine : Engine α ω} {p : Problem α} {warm : Bool}
  {options : SolveOptions α}
  {c : Context α (Session α (ReferenceOptimizer α)) (ω × List (EngineCall α))}

section Settings

variable {σ ω : Type} {opt : Optimizer α σ ω} {c : Context α (Session α σ) ω}

theorem Step.settings {r} {s : Session α σ} (h : Step opt p options warm c r s) :
    s.settings = c.state.settings := by
  cases h <;> rfl

end Settings

variable [Numeric α]

section Halfway

end Halfway
end Session
end ConicProgram
