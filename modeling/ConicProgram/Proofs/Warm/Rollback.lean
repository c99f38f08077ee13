import ConicProgram.Proofs.Model.Frame
import ConicProgram.Proofs.Warm.Chain

namespace ConicProgram

variable {α ω : Type} [Scalar α] [Numeric α] {p q : Problem α} {mode : ConeMode}

def Plan.Names (plan : Plan α) (x : Model.Place) : Prop :=
  ∃ w ∈ plan.writes, w.place = x

section Names

variable {plan : Plan α} {m : Model α} {ws : List (Model.Write α)}

omit [Numeric α] in
theorem Plan.sameBut_foldl_put (hws : ws ⊆ plan.writes) :
    m.SameBut plan.Names (ws.foldl Model.put m) :=
  Model.sameBut_foldl_put fun w hw => ⟨w, hws hw, rfl⟩

omit [Numeric α] in
theorem Plan.sameBut_foldl_put_reversed :
    m.SameBut plan.Names (plan.reversed.writes.foldl Model.put m) :=
  Model.sameBut_foldl_put (forall_place_reversed.mpr fun w hw => ⟨w, hw, rfl⟩)

end Names

-- The way back from a model to one from which not all of the plan's writes have been made.
structure Plan.TakesBack (plan : Plan α) (engine : Engine α ω) (cut m : Model α) : Prop where
  unnamed : m.SameBut plan.Names cut
  back    : ∀ s : ReferenceOptimizer α, s.model = some cut → ∃ s' n,
    (plan.revert (ReferenceOptimizer.operations engine)).Yields s () s' ∧ s'.model = some n ∧
      n.Agrees m ∧ m.SameBut plan.Names n

theorem Snapshot.Describes.takesBack {s : Snapshot α (ReferenceOptimizer α)} {plan : Plan α}
    {m : Model α} {ws : List (Model.Write α)} (h : s.Describes p mode) (hp : p.Admissible)
    (hq : q.Valid) (hplan : s.plan q = .ok plan) (hm : s.held.optimizer.model = some m)
    (hws : ws ⊆ plan.writes) (engine : Engine α ω) :
    ∃ cut, m.writeAll ws = (.ok (), cut) ∧ plan.TakesBack engine cut m := by
  have ⟨m', hm', ha, _⟩ := h.held.model
  cases hm.symm.trans hm'
  have hs := similar_of_checkShape h.outlines hp.valid (planned_of_plan hplan).shape
  have hb := h.between hp.valid hq hp.numbers hplan
  have hf : ∀ w ∈ plan.writes, m.Fits w := fun w hw =>
    ha.alike.fits_iff.mpr (h.outlines.fits hp.valid hq hplan w hw)
  refine ⟨_, Model.writeAll_eq_ok fun w hw => hf w (hws hw), Plan.sameBut_foldl_put hws, ?_⟩
  intro o ho
  have ⟨o', hy, hn⟩ := plan.reversed.yields_apply engine ho fun w hw =>
    Model.fits_foldl_put.mpr (Plan.fits_reversed.mpr hf w hw)
  refine ⟨o', _, hy, hn, ?_, (Plan.sameBut_foldl_put hws).trans Plan.sameBut_foldl_put_reversed⟩
  exact (hb.agrees_back_of_subset hp.valid (valid_target hs h.outlines hp.valid hq)
    (target_similar hs h.outlines) hws hp.numbers ha).trans ha.symm

-- A plan is carried out write by write. Wherever this ends, reverting the plan succeeds and gives
-- the numbers of the original model.
theorem Plan.revert_takesBack (engine : Engine α ω) (mode : ConeMode) (name : String)
    (c : Cache α (ReferenceOptimizer α)) (hp : p.Admissible) (hq : q.validate = .ok ()) :
    ∃ held s m,
      (Instance.coldLoad (ReferenceOptimizer.operations engine) p mode).Yields c held c ∧
      (c.store (ReferenceOptimizer.operations engine) name held p).get? name = some s ∧
      s.held.optimizer.model = some m ∧
      ∀ plan, s.plan q = .ok plan →
        ReferenceOptimizer.Call.Writes (plan.apply (ReferenceOptimizer.operations engine))
          plan.writes ∧
        ∀ ws, ws <+: plan.writes →
          ∃ cut, m.writeAll ws = (.ok (), cut) ∧ plan.TakesBack engine cut m := by
  have ⟨s, hs, hd⟩ := Cache.describes_store engine c name (hp.holds_loadedInstance mode)
  have ⟨m, hm, _⟩ := hd.held.model
  refine ⟨_, s, m, hp.valid.yields_coldLoad engine mode hp.validated hp.indexable c, hs, hm,
    fun plan hplan => ⟨plan.writes_apply engine, fun ws hws => ?_⟩⟩
  exact hd.takesBack hp (Problem.valid_of_validate hq) hplan hm hws.subset engine

-- What is stored after a cold load describes the problem.
theorem Problem.Admissible.describes_of_coldLoad {engine : Engine α ω} [Inhabited ω]
    {c : Cache α (ReferenceOptimizer α)} {held : Instance (ReferenceOptimizer α)}
    {s : Snapshot α (ReferenceOptimizer α)} {name : String} (hp : p.Admissible)
    (hy : (Instance.coldLoad (ReferenceOptimizer.operations engine) p mode).Yields c held c)
    (hs : (c.store (ReferenceOptimizer.operations engine) name held p).get? name = some s) :
    s.Describes p mode := by
  have hl := hp.valid.yields_coldLoad engine mode hp.validated hp.indexable c
  rw [(hy.unique default hl).1] at hs
  have ⟨t, ht, hd⟩ := Cache.describes_store engine c name (hp.holds_loadedInstance mode)
  cases hs.symm.trans ht
  exact hd

section Turned

-- The disc with another slope, and with the line `3 y ≤ 2` in the place of `x ≤ 1`. One of the
-- variables is an integer.
def Problem.turnedDisc : Problem Float where
  objective := [0, 1]
  matrix := {
    rows := 4
    cols := 2
    starts := [0, 1, 3]
    rowIndices := [2, 0, 3]
    values := [1, 3, 1] }
  rhs := [2, 1, 0, 0]
  partition := ⟨0, 1, [3]⟩
  integers := [1]

def Plan.turning : Plan Float where
  objective := [⟨0, 1, 0⟩]
  matrix := [⟨0, 0, 1, 0⟩, ⟨0, 1, 0, 3⟩]
  rhs := [⟨0, 1, 2⟩]
  kinds := [⟨1, .continuous, .integer⟩]

theorem Problem.changesFrom_turnedDisc :
    turnedDisc.matrix.changesFrom (disc (1, 1) 1).matrix = .ok Plan.turning.matrix := by
  have h₀ : EntryChange.ofColumn 0 [(2, 1)] [(0, 1), (2, 1)] = [⟨0, 0, (1 : Float), 0⟩] := by
    simp only [EntryChange.ofColumn]
    rfl
  have h₁ : EntryChange.ofColumn 1 [(0, 3), (3, 1)] [(3, 1)] = [⟨0, 1, (0 : Float), 3⟩] := by
    simp only [EntryChange.ofColumn]
    rfl
  show Attempt.ofOption (some [EntryChange.ofColumn 0 [(2, 1)] [(0, 1), (2, 1)],
    EntryChange.ofColumn 1 [(0, 3), (3, 1)] [(3, 1)]].flatten) = _
  rw [h₀, h₁]
  rfl

theorem Snapshot.Describes.plan_turnedDisc {s : Snapshot Float (ReferenceOptimizer Float)}
    (h : s.Describes (.disc (1, 1) 1) mode) : s.plan .turnedDisc = .ok Plan.turning := by
  have h₁ : Scalar.IsNumber (1 : Float) := Numeric.one_isNumber
  have hp := (Problem.admissible_disc h₁ h₁ h₁).valid
  have hf := h.held.frames
  have hk : s.kinds = ((Problem.disc (1, 1) 1).loaded mode).columns.map (·.kind) := by
    rw [h.kinds, hf.kinds]
  have hrow : 0 < (Problem.disc (1, 1) 1).heldRows mode := by cases mode <;> decide
  refine plan_eq_ok_iff.mpr ⟨checkShape_of_similar h.outlines hp ⟨rfl, rfl⟩, ?_,
    ⟨Plan.turning.matrix, ?_, ?_⟩, ?_, Problem.turnedDisc.kinds, rfl, ?_⟩
  · rw [h.objective]
    rfl
  · rw [h.matrix]
    exact Problem.changesFrom_turnedDisc
  · refine mapM_realize_of_forall (β := EntryChange Float) (·.row) (fun c i => { c with row := i })
      hf hp (fun _ => rfl) fun c hc => ?_
    simp only [Plan.turning, List.mem_cons, List.not_mem_nil, or_false] at hc
    rcases hc with rfl | rfl <;> exact hrow
  · rw [h.rhs]
    have hrhs : ∀ c ∈ [(⟨0, 1, 2⟩ : ValueChange Float)],
        c.index < (Problem.disc (1, 1) 1).heldRows mode := List.forall_mem_singleton.mpr hrow
    exact mapM_realize_of_forall ValueChange.index (fun c i => { c with index := i }) hf hp
      (fun _ => rfl) hrhs
  · rw [hk]
    cases mode <;> rfl

-- The plan is broken off between the coefficients: the one that it removes is gone, and the one that
-- it puts in is not there yet.
theorem Plan.revert_takesBack_turning :
    ∃ held, ∃ s : Snapshot Float (ReferenceOptimizer Float), ∃ m cut,
      (Instance.coldLoad (ReferenceOptimizer.operations (ω := Unit) fun _ => pure (.error "down"))
        (.disc (1, 1) 1) .auxiliary).Yields ({} : Cache Float (ReferenceOptimizer Float)) held {} ∧
      (Cache.store {} (ReferenceOptimizer.operations (ω := Unit) fun _ => pure (.error "down"))
        "disc" held (.disc (1, 1) 1)).get? "disc" = some s ∧
      s.held.optimizer.model = some m ∧ s.plan .turnedDisc = .ok turning ∧
      m.writeAll [.objective 0 0, .coefficient 0 0 0] = (.ok (), cut) ∧
      turning.TakesBack (ω := Unit) (fun _ => pure (.error "down")) cut m := by
  have h₁ : Scalar.IsNumber (1 : Float) := Numeric.one_isNumber
  have hp := Problem.admissible_disc h₁ h₁ h₁
  have ⟨held, s, m, hy, hs, hm, h⟩ := revert_takesBack (q := .turnedDisc) (ω := Unit)
    (fun _ => pure (.error "down")) .auxiliary "disc" {} hp rfl
  have hplan := (hp.describes_of_coldLoad hy hs).plan_turnedDisc
  have ⟨cut, hw, ht⟩ := (h turning hplan).2 [.objective 0 0, .coefficient 0 0 0] ⟨_, rfl⟩
  exact ⟨held, s, m, cut, hy, hs, hm, hplan, hw, ht⟩

end Turned
end ConicProgram
