import ConicProgram.Proofs.Optimizer.Operations
import ConicProgram.Proofs.Scalar.Binary64

namespace ConicProgram

open Scalar (IsNumber)

section Names

variable {α : Type} [Scalar α]

def ControlName.InRange : ControlName → α → Prop
  | integrality, x => 0 < x ∧ x < 0.5
  | _, x => 0 < x

-- What is not known to be out of range.
def ControlName.Passes (n : ControlName) (x : α) : Prop :=
  ¬x ≤ 0 ∧ (n = integrality → ¬0.5 ≤ x)

theorem ControlName.text_injective : Function.Injective text := by
  intro n m h
  simpa [ofText?_text] using congrArg ofText? h

namespace Controls

variable {c k : Controls α} {d : Draft α} {n m : ControlName} {name : String}
  {value : ControlValue α} {x : α}

def measure? (c : Controls α) : ControlName → Option α
  | .timeLimit => some c.timeLimit
  | .gapAbsolute => some c.gapAbsolute
  | .gapRelative => some c.gapRelative
  | .feasibility => some c.feasibility
  | .infeasibilityAbsolute => some c.infeasibilityAbsolute
  | .infeasibilityRelative => some c.infeasibilityRelative
  | .integrality => some c.integrality
  | .verbose | .maxIterations | .presolve | .maxNodes => none

def Draft.measure? (d : Draft α) : ControlName → Option α
  | .timeLimit => d.timeLimit
  | .gapAbsolute => d.gapAbsolute
  | .gapRelative => d.gapRelative
  | .feasibility => d.feasibility
  | .infeasibilityAbsolute => d.infeasibilityAbsolute
  | .infeasibilityRelative => d.infeasibilityRelative
  | .integrality => d.integrality
  | .verbose | .maxIterations | .presolve | .maxNodes => none

structure Valid (c : Controls α) : Prop where
  timeLimit : 0 < c.timeLimit
  gapAbsolute : 0 < c.gapAbsolute
  gapRelative : 0 < c.gapRelative
  feasibility : 0 < c.feasibility
  infeasibilityAbsolute : 0 < c.infeasibilityAbsolute
  infeasibilityRelative : 0 < c.infeasibilityRelative
  integrality : 0 < c.integrality ∧ c.integrality < 0.5

-- Whatever the controls are at the time.
def Accepts (name : String) (value : ControlValue α) : Prop :=
  ∀ c : Controls α, ∃ k, c.assign name value = .ok k

def Fits (c : Controls α) (n : ControlName) : Prop :=
  ∀ x, c.measure? n = some x → n.InRange x

theorem valid_iff : c.Valid ↔ ∀ n, c.Fits n := by
  constructor
  case mp =>
    intro h n x hx
    cases n <;> cases hx
    case timeLimit => exact h.timeLimit
    case gapAbsolute => exact h.gapAbsolute
    case gapRelative => exact h.gapRelative
    case feasibility => exact h.feasibility
    case infeasibilityAbsolute => exact h.infeasibilityAbsolute
    case infeasibilityRelative => exact h.infeasibilityRelative
    case integrality => exact h.integrality
  case mpr =>
    intro h
    exact {
      timeLimit := h .timeLimit _ rfl
      gapAbsolute := h .gapAbsolute _ rfl
      gapRelative := h .gapRelative _ rfl
      feasibility := h .feasibility _ rfl
      infeasibilityAbsolute := h .infeasibilityAbsolute _ rfl
      infeasibilityRelative := h .infeasibilityRelative _ rfl
      integrality := h .integrality _ rfl
    }

theorem positive?_eq_some_iff : positive? value = some x ↔ value.asNumber = some x ∧ 0 < x := by
  simp [positive?, Option.filter_eq_some_iff]

theorem nearness?_eq_some_iff :
    nearness? value = some x ↔ value.asNumber = some x ∧ 0 < x ∧ x < 0.5 := by
  simp [nearness?, Option.filter_eq_some_iff]

-- What is set is in range, and all else is left as it is.
theorem fits_of_set? (h : c.set? n value = some k) : k.Fits n := by
  intro x hx
  cases n <;> cases hx <;> simp only [set?, Option.map_eq_some_iff] at h <;>
    obtain ⟨y, hy, rfl⟩ := h
  case integrality => exact (nearness?_eq_some_iff.mp hy).2
  all_goals exact (positive?_eq_some_iff.mp hy).2

theorem measure?_of_set? (h : c.set? n value = some k) (hm : m ≠ n) :
    k.measure? m = c.measure? m := by
  cases n <;> simp only [set?, Option.map_eq_some_iff] at h <;> obtain ⟨y, hy, rfl⟩ := h <;>
    cases m <;> first | rfl | exact absurd rfl hm

theorem isSome_set? (c k : Controls α) : (c.set? n value).isSome = (k.set? n value).isSome := by
  cases n <;> simp [set?]

theorem assign_text (c : Controls α) (n : ControlName) (value : ControlValue α) :
    c.assign n.text value =
      match c.set? n value with
      | none => .error (.badControlValue n.text value)
      | some k => .ok k := by
  cases h : c.set? n value <;> simp [assign, ControlName.ofText?_text, h]

theorem assign_eq_ok_iff :
    c.assign name value = .ok k ↔ ∃ n, n.text = name ∧ c.set? n value = some k := by
  constructor
  case mp =>
    intro h
    unfold assign at h
    cases hn : ControlName.ofText? name <;> rw [hn] at h
    case none => cases h
    case some n =>
      cases hs : c.set? n value <;> simp only [hs] at h
      case none => cases h
      case some => exact ⟨n, ControlName.text_of_ofText? hn, Except.ok.inj h ▸ hs⟩
  case mpr =>
    rintro ⟨n, rfl, h⟩
    rw [assign_text, h]

theorem accepts_text_iff : Accepts n.text value ↔ (c.set? n value).isSome := by
  constructor
  case mp =>
    intro h
    have ⟨k, hk⟩ := h c
    have ⟨m, hm, hs⟩ := assign_eq_ok_iff.mp hk
    cases ControlName.text_injective hm
    simp [hs]
  case mpr =>
    intro h b
    have ⟨k, hk⟩ := Option.isSome_iff_exists.mp ((isSome_set? b c).trans h)
    exact ⟨k, assign_eq_ok_iff.mpr ⟨n, rfl, hk⟩⟩

-- A setting that is not taken leaves the controls as they are.
def keep (c : Controls α) (setting : String × ControlValue α) : Controls α :=
  match c.assign setting.1 setting.2 with
  | .error _ => c
  | .ok k => k

theorem fits_keep_iff :
    (c.keep (name, value)).Fits n ↔ c.Fits n ∨ name = n.text ∧ Accepts name value := by
  unfold keep
  cases h : c.assign name value
  case error e =>
    refine (or_iff_left ?_).symm
    rintro ⟨-, ha⟩
    have ⟨k, hk⟩ := ha c
    cases h.symm.trans hk
  case ok k =>
    have ⟨m, hm, hs⟩ := assign_eq_ok_iff.mp h
    by_cases he : n = m
    case pos =>
      cases he
      cases hm
      exact iff_of_true (fits_of_set? hs) (.inr ⟨rfl, accepts_text_iff.mpr (by rw [hs]; rfl)⟩)
    case neg =>
      have hn : name ≠ n.text := hm ▸ fun ht => he (ControlName.text_injective ht).symm
      simp [hn, Fits, measure?_of_set? hs he]

-- The induction is on the settings. One that is taken last for a control decides alone.
theorem fits_foldl_keep_iff {settings : List (String × ControlValue α)} :
    (settings.foldl keep c).Fits n ↔
      c.Fits n ∨ ∃ value, (n.text, value) ∈ settings ∧ Accepts n.text value := by
  induction settings generalizing c
  case nil => simp
  case cons setting settings hi =>
    have ⟨name, value⟩ := setting
    rw [List.foldl_cons, hi, fits_keep_iff]
    simp only [List.mem_cons, Prod.mk.injEq, or_assoc, or_and_right, exists_or]
    refine or_congr_right (or_congr_left ?_)
    constructor
    case mp =>
      rintro ⟨rfl, h⟩
      exact ⟨value, ⟨rfl, rfl⟩, h⟩
    case mpr =>
      rintro ⟨_, ⟨rfl, rfl⟩, h⟩
      exact ⟨rfl, h⟩

namespace Draft

theorem exists_build_iff : (∃ c, d.build = .ok c) ↔ d.validate = .ok () := by
  unfold build
  cases d.validate
  case error e => exact iff_of_false (fun ⟨_, h⟩ => nomatch h) nofun
  case ok => exact iff_of_true ⟨_, rfl⟩ rfl

theorem validate_eq_ok_iff : d.validate = .ok () ↔
    (∀ t ∈ d.tolerances, ∀ x, t.2 = some x → ¬x ≤ 0) ∧
      ∀ x, d.integrality = some x → ¬x ≤ 0 ∧ ¬0.5 ≤ x := by
  unfold validate
  split
  case h_1 n x h =>
    refine iff_of_false nofun fun hd => ?_
    have hx := List.find?_some h
    cases x
    case none => cases hx
    case some x =>
      exact hd.1 _ (List.mem_of_find?_eq_some h) x rfl (by simpa using hx)
  case h_2 h =>
    have hn : ∀ t ∈ d.tolerances, ∀ x, t.2 = some x → ¬x ≤ 0 := by
      intro t ht x hx
      simpa [hx] using List.find?_eq_none.mp h t ht
    rw [and_iff_right hn]
    cases d.integrality <;> simp

-- The nearness is checked apart from what has to be positive only.
theorem exists_build_iff_passes : (∃ c, d.build = .ok c) ↔
    ∀ n x, d.measure? n = some x → n.Passes x := by
  rw [exists_build_iff, validate_eq_ok_iff]
  constructor
  case mp =>
    intro ⟨ht, hi⟩ n x hx
    by_cases hn : n = .integrality
    case pos =>
      cases hn
      exact (hi x hx).imp_right fun h _ => h
    case neg =>
      have hm : (n, some x) ∈ d.tolerances := by cases n <;> simp_all [tolerances, measure?]
      exact ⟨ht _ hm x rfl, fun h => absurd h hn⟩
  case mpr =>
    intro h
    have hm : ∀ t ∈ d.tolerances, t.2 = d.measure? t.1 := by simp [tolerances, measure?]
    constructor
    case left => exact fun t ht x hx => (h t.1 x (hm t ht ▸ hx)).1
    case right => exact fun x hx => (h .integrality x hx).imp_right fun hi => hi rfl

theorem measure?_build (h : d.build = .ok c) :
    c.measure? n = (d.measure? n).or ((standard : Controls α).measure? n) := by
  unfold build at h
  cases hv : d.validate <;> rw [hv] at h <;> cases h
  cases n <;> simp [Controls.measure?, Draft.measure?, standard]

-- Where there is a choice, the control is one of those that are numbers.
theorem accepts_real_iff (h : d.measure? n = some x) :
    Accepts n.text (.real x) ↔ n.InRange x := by
  rw [accepts_text_iff (c := standard)]
  cases n <;> simp only [measure?] at h <;> try cases h
  all_goals simp [set?, positive?, nearness?, ControlValue.asNumber, ControlName.InRange,
    Option.filter]

end Draft

end Controls
end Names

namespace Controls

variable {c : Controls Float} {d : Draft Float} {n : ControlName} {x : Float}

theorem valid_standard : (standard : Controls Float).Valid where
  timeLimit := by decide
  gapAbsolute := by decide
  gapRelative := by decide
  feasibility := by decide
  infeasibilityAbsolute := by decide
  infeasibilityRelative := by decide
  integrality := by decide

theorem isNumber_of_inRange (h : n.InRange x) : IsNumber x := by
  cases n
  case integrality => exact (Numeric.isNumber_of_lt h.1).2
  all_goals exact (Numeric.isNumber_of_lt h).2

theorem passes_iff : n.Passes x ↔ n.InRange x ∨ ¬IsNumber x := by
  have hz : ¬x ≤ 0 ↔ 0 < x ∨ ¬IsNumber x :=
    Binary64.not_le_iff.trans (or_congr_right (or_iff_left (not_not_intro Numeric.zero_isNumber)))
  cases n
  case integrality =>
    have hn := (Numeric.isNumber_of_lt valid_standard.integrality.2).2
    have hh : ¬0.5 ≤ x ↔ x < 0.5 ∨ ¬IsNumber x :=
      Binary64.not_le_iff.trans (or_congr_right (or_iff_right (not_not_intro hn)))
    exact (and_congr hz ((forall_prop_of_true rfl).trans hh)).trans and_or_right.symm
  all_goals exact (and_iff_left nofun).trans hz

theorem Draft.exists_build_iff_accepts : (∃ c, d.build = .ok c) ↔
    ∀ n x, d.measure? n = some x → Accepts n.text (.real x) ∨ ¬IsNumber x := by
  rw [exists_build_iff_passes]
  refine forall_congr' fun n => forall_congr' fun x => forall_congr' fun hx => ?_
  rw [passes_iff, accepts_real_iff hx]

theorem Draft.fits_build_iff (h : d.build = .ok c) :
    c.Fits n ↔ ∀ x, d.measure? n = some x → IsNumber x := by
  have hm := measure?_build (n := n) h
  constructor
  case mp =>
    intro hf x hx
    rw [hx] at hm
    exact isNumber_of_inRange (hf x hm)
  case mpr =>
    intro hd x hx
    rw [hm] at hx
    cases hn : d.measure? n <;> rw [hn] at hx
    case none => exact valid_iff.mp valid_standard n x hx
    case some y =>
      cases hx
      have hb := exists_build_iff_passes.mp ⟨c, h⟩ n x hn
      exact (passes_iff.mp hb).resolve_right fun hy => hy (hd x hn)

end Controls

namespace ReferenceOptimizer

open Controls

variable {α ω : Type} [Scalar α]

theorem perform_setControl (name : String) (value : ControlValue α)
    (c : Context α (ReferenceOptimizer α) ω) :
    (setControl name value).perform c = match c.state.controls.assign name value with
      | .error e => (.error (.refused e), c)
      | .ok controls => (.ok (), { c with state := { c.state with controls } }) := by
  rw [setControl, Action.perform_bind_of_ok Action.perform_state]
  dsimp only [Controls.assign]
  cases ControlName.ofText? name
  case none => rfl
  case some known =>
    dsimp only
    cases c.state.controls.set? known value <;> rfl

theorem operate_setControl (engine : Engine α ω) (c : Context α (ReferenceOptimizer α) ω)
    (settings : List (String × ControlValue α)) :
    operate (operations engine) c (settings.map fun (name, value) => .setControl name value) =
      { c with state :=
        { c.state with controls := settings.foldl Controls.keep c.state.controls } } := by
  induction settings generalizing c
  case nil => rfl
  case cons setting settings hi =>
    have hs : ((Operation.setControl setting.1 setting.2).run (operations engine)).perform c =
      (setControl setting.1 setting.2).perform c := rfl
    unfold operate at hi ⊢
    rw [List.map_cons, List.foldl_cons, hs, hi, perform_setControl, List.foldl_cons, Controls.keep]
    cases c.state.controls.assign setting.1 setting.2 <;> rfl

-- A draft is taken if each of its numbers would be taken as a setting, or is no number. Controls
-- from a draft are in range, whatever settings are tried on them afterwards, unless a choice of the
-- draft is no number and no setting has replaced it. A setting that is turned down changes nothing.
theorem controls_in_range (engine : Engine Float ω) (d : Draft Float) :
    ((∃ controls, d.build = .ok controls) ↔
      ∀ n x, d.measure? n = some x → Accepts n.text (.real x) ∨ ¬IsNumber x) ∧
    (∀ controls, d.build = .ok controls →
      ∀ (settings : List (String × ControlValue Float)) (o : ω) log,
        (operate (operations engine) ⟨withControls controls, o, log⟩
          (settings.map fun (name, value) => .setControl name value)).state.controls.Valid ↔
        ∀ n x, d.measure? n = some x →
          IsNumber x ∨ ∃ value, (n.text, value) ∈ settings ∧ Accepts n.text value) ∧
    ∀ name value, ∀ c : Context Float (ReferenceOptimizer Float) ω,
      ((setControl name value).perform c).1 ≠ .ok () →
        ((setControl name value).perform c).2 = c := by
  refine ⟨Draft.exists_build_iff_accepts, fun controls h settings o log => ?valid,
    fun name value c h => ?kept⟩
  case valid =>
    rw [operate_setControl, valid_iff]
    refine forall_congr' fun n => ?_
    rw [fits_foldl_keep_iff]
    show controls.Fits n ∨ _ ↔ _
    rw [Draft.fits_build_iff h, ← forall_or_right]
    exact forall_congr' fun x => forall_or_right.symm
  case kept =>
    rw [perform_setControl] at h ⊢
    cases ha : c.state.controls.assign name value
    case error e => rfl
    case ok controls => simp [ha] at h

-- The nonsense that a comparison with a bound does not find.
def unordered : Draft Float where
  feasibility := some (0 / 0)

-- It would be turned down as a setting.
theorem not_valid_unordered : ∃ controls, unordered.build = .ok controls ∧ ¬controls.Valid ∧
    ¬Accepts ControlName.feasibility.text (.real (0 / 0) : ControlValue Float) := by
  refine ⟨_, rfl, fun h => absurd h.feasibility (by decide), fun h => ?_⟩
  cases (accepts_text_iff (c := standard)).mp h

-- The second setting is in range, so that the nonsense of the draft is gone. The third is turned
-- down.
theorem controls_in_range_unordered : ∃ controls, unordered.build = .ok controls ∧
    (operate (operations origin) ⟨withControls controls, (), []⟩
      (([("tol_feas", .real (0 / 0)), ("tol_feas", .real 1e-6), ("mip_int_tol", .real 0.5)] :
        List (String × ControlValue Float)).map
          fun (name, value) => .setControl name value)).state.controls.Valid := by
  refine ⟨_, rfl, ((controls_in_range origin unordered).2.1 _ rfl _ () []).mpr fun n x hx => ?_⟩
  cases n <;> cases hx
  case feasibility =>
    refine .inr ⟨.real 1e-6, by simp [ControlName.text], ?_⟩
    exact (accepts_text_iff (c := standard)).mpr (by decide)

end ReferenceOptimizer

end ConicProgram
