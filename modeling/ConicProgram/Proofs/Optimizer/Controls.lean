import ConicProgram.Optimizer.Reference
import ConicProgram.Proofs.Action
import ConicProgram.Proofs.Lists

namespace ConicProgram

namespace Controls

variable {α : Type} [Scalar α] {controls : Controls α} {name n : String} {value : ControlValue α}

def assign (controls : Controls α) (name : String) (value : ControlValue α) :
    Except (OptimizerError α) (Controls α) :=
  match ControlName.ofText? name with
  | none => .error (.unknownControl name)
  | some known =>
    match controls.set? known value with
    | none => .error (.badControlValue name value)
    | some controls => .ok controls

end Controls

namespace ReferenceOptimizer

variable {α ω τ δ : Type} {a b : Call α ω Unit}
  {f g : Controls α → Except (OptimizerError α) (Controls α)}

-- The call makes other controls of those that are set, or else it fails with some of them set. All
-- else in the optimizer is left as it is, and nothing outside is asked.
def Sets (a : Call α ω Unit) (f : Controls α → Except (OptimizerError α) (Controls α)) : Prop :=
  ∀ s o log, ∃ controls log', a.perform ⟨s, o, log⟩ =
      (Attempt.ofExcept (f s.controls) >>= fun _ => pure (), ⟨{ s with controls }, o, log'⟩) ∧
    ∀ k, f s.controls = .ok k → controls = k

theorem sets_record (e : Event α) : Sets (Action.record e : Call α ω Unit) .ok :=
  fun s _ log => ⟨s.controls, log ++ [e], rfl, fun _ h => Except.ok.inj h⟩

theorem sets_pure : Sets (pure () : Call α ω Unit) pure :=
  fun s _ log => ⟨s.controls, log, rfl, fun _ h => Except.ok.inj h⟩

theorem Sets.bind (ha : Sets a f) (hb : Sets b g) :
    Sets (a >>= fun _ => b) fun controls => f controls >>= g := by
  intro s o log
  have ⟨controls, log', ha, hk⟩ := ha s o log
  dsimp only
  cases hf : f s.controls <;> rw [hf] at ha
  case error e => exact ⟨controls, log', Action.perform_bind_of_error ha, nofun⟩
  case ok k =>
    cases hk k hf
    have hb := hb { s with controls } o log'
    rw [Action.perform_bind_of_ok ha]
    exact hb

-- The induction is on the settings, which are made in their order.
theorem sets_forIn {xs : List δ} {a : δ → Call α ω Unit}
    {body : δ → PUnit → Call α ω (ForInStep PUnit)}
    {f : δ → Controls α → Except (OptimizerError α) (Controls α)} (h : ∀ x, Sets (a x) (f x))
    (hb : ∀ x u, body x u = a x >>= fun _ => pure (.yield PUnit.unit)) :
    Sets (forIn xs PUnit.unit body)
      fun controls => xs.foldlM (fun controls x => f x controls) controls := by
  induction xs
  case nil => exact sets_pure
  case cons x xs hi =>
    simp only [List.forIn_cons, List.foldlM_cons, hb, bind_assoc, pure_bind]
    exact (h x).bind hi

theorem Sets.keeps {t : ReferenceOptimizer α → τ} (h : Sets a f)
    (ht : ∀ s controls, t { s with controls } = t s) : a.Keeps t := by
  intro ⟨s, o, log⟩
  have ⟨controls, _, h, _⟩ := h s o log
  rw [h]
  exact ht s controls

variable [Scalar α]

theorem sets_setControl (name : String) (value : ControlValue α) :
    Sets (setControl name value : Call α ω Unit) (·.assign name value) := by
  intro s o log
  rw [setControl, Action.perform_bind_of_ok Action.perform_state]
  dsimp only [Controls.assign]
  cases ControlName.ofText? name
  case none => exact ⟨s.controls, log, rfl, nofun⟩
  case some known =>
    dsimp only
    cases s.controls.set? known value
    case none => exact ⟨s.controls, log, rfl, nofun⟩
    case some controls => exact ⟨controls, log, rfl, fun _ h => Except.ok.inj h⟩

theorem keeps_setControl {f : ReferenceOptimizer α → τ}
    (hf : ∀ s controls, f { s with controls } = f s) (name : String) (value : ControlValue α) :
    (setControl name value : Call α ω Unit).Keeps f :=
  (sets_setControl name value).keeps hf

end ReferenceOptimizer
end ConicProgram
