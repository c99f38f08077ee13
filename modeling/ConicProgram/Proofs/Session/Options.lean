import ConicProgram.Proofs.Optimizer.Controls
import ConicProgram.Session.Basic

namespace ConicProgram

variable {α ω : Type} [Scalar α]

-- Settings are made one after the other, until one of them is turned down.
def Controls.assignAll (controls : Controls α) (entries : List (String × ControlValue α)) :
    Except (OptimizerError α) (Controls α) :=
  entries.foldlM (fun controls (name, value) => controls.assign name value) controls

namespace SolveOptions

def known (options : SolveOptions α) : List (String × ControlValue α) :=
  options.extra.entries.filter fun e => ControlName.isKnown e.1

-- The output is switched first, then the controls that are asked for are set in the order of their
-- names, and then those of the further options that are known.
def controlsFrom (options : SolveOptions α) (settings : Settings) (initial : Controls α) :
    Except (OptimizerError α) (Controls α) :=
  { initial with verbose := settings.verbose }.assignAll (options.controls.entries ++ options.known)

variable {options : SolveOptions α} {settings : Settings} {initial : Controls α} {name : String}

theorem controlsFrom_eq : options.controlsFrom settings initial =
    ({ initial with verbose := settings.verbose } : Controls α).assignAll options.controls.entries
      >>= (·.assignAll options.known) :=
  List.foldlM_append ..

end SolveOptions

namespace ReferenceOptimizer

omit [Scalar α] in
theorem sets_state {a : ReferenceOptimizer α → Call α ω Unit}
    {f : Controls α → Except (OptimizerError α) (Controls α)} (h : ∀ s, Sets (a s) f) :
    Sets (Action.state >>= a) f := by
  intro s o log
  rw [Action.perform_bind_of_ok Action.perform_state]
  exact h s s o log

theorem sets_assignAll (entries : List (String × ControlValue α)) :
    Sets (forIn entries PUnit.unit fun (name, value) _ => do
      setControl name value
      return ForInStep.yield PUnit.unit : Call α ω Unit) (·.assignAll entries) :=
  sets_forIn (fun (name, value) => sets_setControl name value) fun _ _ => rfl

-- Of these some are left out.
theorem sets_known (engine : Engine α ω) (entries : List (String × ControlValue α)) :
    Sets (forIn entries PUnit.unit fun (name, value) _ => do
      if (operations engine).hasControl (← Action.state) name then
        (operations engine).setControl name value
      else
        Action.record (.ignoredOption name)
      return ForInStep.yield PUnit.unit : Call α ω Unit)
      (·.assignAll (entries.filter fun e => ControlName.isKnown e.1)) := by
  simp only [Controls.assignAll, List.foldlM_filter]
  refine sets_forIn (a := fun (name, value) => do
    if (operations engine).hasControl (← Action.state) name then
      (operations engine).setControl name value
    else
      Action.record (.ignoredOption name)) (fun (name, value) => sets_state fun s => ?sets)
    fun (name, value) _ => ?body
  case sets =>
    show Sets (if ControlName.isKnown name then _ else _) _
    split
    case isTrue => exact sets_setControl name value
    case isFalse => exact sets_record _
  case body =>
    rw [bind_assoc]
    refine congrArg _ (funext fun s => ?_)
    split <;> rfl

end ReferenceOptimizer

namespace Session

open ReferenceOptimizer

theorem assign_verbose (controls : Controls α) (flag : Bool) :
    controls.assign verboseControl (.flag flag) = .ok { controls with verbose := flag } := by
  rw [Controls.assign, show verboseControl = ControlName.verbose.text from rfl,
    ControlName.ofText?_text]
  rfl

-- From the controls that an optimizer has in the beginning the options lead to the same ones,
-- whatever the controls are before.
theorem perform_applyOptions (engine : Engine α ω) (settings : Settings) (options : SolveOptions α)
    (s : ReferenceOptimizer α) (o : ω) (log : List (Event α)) :
    ∃ controls log', (applyOptions (operations engine) settings options).perform ⟨s, o, log⟩ =
        (Attempt.ofExcept (options.controlsFrom settings s.initial) >>= fun _ => pure (),
          ⟨{ s with controls }, o, log'⟩) ∧
      ∀ k, options.controlsFrom settings s.initial = .ok k → controls = k := by
  have hset := (sets_setControl (ω := ω) verboseControl (.flag settings.verbose)).bind
    ((sets_assignAll options.controls.entries).bind
      ((sets_known engine options.extra.entries).bind sets_pure))
  simp only [bind_pure, assign_verbose] at hset
  rw [SolveOptions.controlsFrom_eq]
  exact hset { s with controls := s.initial } o log

theorem keeps_applyOptions {τ : Type} {f : ReferenceOptimizer α → τ}
    (hf : ∀ s controls, f { s with controls } = f s) (engine : Engine α ω) (settings : Settings)
    (options : SolveOptions α) :
    (applyOptions (operations engine) settings options).Keeps f := by
  intro ⟨s, o, log⟩
  have ⟨controls, _, h, _⟩ := perform_applyOptions engine settings options s o log
  rw [h]
  exact hf s controls

end Session
end ConicProgram
