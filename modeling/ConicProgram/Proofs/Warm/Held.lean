import ConicProgram.Proofs.Loading.Cold
import ConicProgram.Proofs.Warm.Update

namespace ConicProgram

variable {α ω : Type} [Scalar α] {p q : Problem α} {mode : ConeMode}

-- A valid problem whose indices are machine words and whose data are numbers.
structure Problem.Admissible (p : Problem α) : Prop where
  validated : p.validate = .ok ()
  indexable : p.Indexable
  numbers   : p.Numbers

theorem Problem.Admissible.valid (h : p.Admissible) : p.Valid :=
  valid_of_validate h.validated

-- Only which variables are discrete has to be looked at anew.
theorem Problem.Admissible.of_validate (h : p.Admissible) (ho : q.objective = p.objective)
    (hm : q.matrix = p.matrix) (hr : q.rhs = p.rhs) (hv : q.validate = .ok ()) : q.Admissible where
  validated := hv
  indexable := by
    refine ⟨?_, ?_⟩
    · rw [rowCount, hm]
      exact h.indexable.rows
    · rw [variableCount, hm]
      exact h.indexable.columns
  numbers := ⟨ho ▸ h.numbers.objective, hm ▸ h.numbers.matrix, hr ▸ h.numbers.rhs⟩

-- The instance is laid out as the problem is, and its model agrees with the one that stands for it.
structure Instance.Holds (s : Instance (ReferenceOptimizer α)) (p : Problem α) (mode : ConeMode) :
    Prop where
  layout : s = { p.loadedInstance mode with optimizer := s.optimizer }
  model  : ∃ m, s.optimizer.model = some m ∧ m.Agrees (p.loaded mode) ∧ m.Scoped

-- The instance is laid out as the problem is, and its model has the same places and kinds of
-- columns as the one that stands for it. What numbers there are is left open.
structure Instance.Frames (s : Instance (ReferenceOptimizer α)) (p : Problem α) (mode : ConeMode) :
    Prop where
  layout : s = { p.loadedInstance mode with optimizer := s.optimizer }
  model  : ∃ m, s.optimizer.model = some m ∧ m.Shaped (p.loaded mode) ∧
    m.columns.map (·.kind) = (p.loaded mode).columns.map (·.kind) ∧ m.Scoped

-- The data of the snapshot are those of a problem that its instance frames.
structure Snapshot.Outlines (s : Snapshot α (ReferenceOptimizer α)) (p : Problem α)
    (mode : ConeMode) : Prop where
  held      : s.held.Frames p mode
  objective : s.objective = p.objective
  matrix    : s.matrix = p.matrix
  rhs       : s.rhs = p.rhs
  partition : s.partition = p.partition
  kinds     : s.kinds = s.held.optimizer.kinds

-- The snapshot holds the problem that its data describe.
structure Snapshot.Describes (s : Snapshot α (ReferenceOptimizer α)) (p : Problem α)
    (mode : ConeMode) : Prop where
  held      : s.held.Holds p mode
  objective : s.objective = p.objective
  matrix    : s.matrix = p.matrix
  rhs       : s.rhs = p.rhs
  partition : s.partition = p.partition
  kinds     : s.kinds = s.held.optimizer.kinds

-- The problem that a plan leads to. What is not declared to change is taken from the snapshot.
def Snapshot.target {σ : Type} (s : Snapshot α σ) (p : Problem α) : Problem α :=
  { p with
    objective := if p.parameters.objective then p.objective else s.objective
    matrix := if p.parameters.constraints then p.matrix else s.matrix }

section Frames

variable {s : Instance (ReferenceOptimizer α)} {plan : Plan α} {m : Model α}

theorem Instance.Holds.frames (h : s.Holds p mode) : s.Frames p mode := by
  have ⟨m, hm, ha, hs⟩ := h.model
  exact ⟨h.layout, m, hm, ha.alike.toShaped, by rw [ha.columns], hs⟩

theorem Snapshot.Describes.outlines {s : Snapshot α (ReferenceOptimizer α)}
    (h : s.Describes p mode) : s.Outlines p mode :=
  ⟨h.held.frames, h.objective, h.matrix, h.rhs, h.partition, h.kinds⟩

theorem Instance.Frames.kinds (h : s.Frames p mode) :
    s.optimizer.kinds = (p.loaded mode).columns.map (·.kind) := by
  have ⟨m, hm, _, hk, _⟩ := h.model
  rw [ReferenceOptimizer.kinds, hm, ← hk]
  rfl

theorem Instance.Frames.realizedRow?_eq (h : s.Frames p mode) (hp : p.Valid) (i : Nat) :
    s.realizedRow? i = if i < p.heldRows mode then some i else none := by
  rw [h.layout]
  exact hp.realizedRow?_loadedInstance mode i

-- A row that is held as a row is held under its own index.
theorem Instance.Frames.realizedRow?_eq_some_iff (h : s.Frames p mode) (hp : p.Valid) {i k : Nat} :
    s.realizedRow? i = some k ↔ k = i ∧ i < p.heldRows mode := by
  rw [h.realizedRow?_eq hp, Option.ite_none_right_eq_some, Option.some.injEq, and_comm, eq_comm]

-- Loading a problem frames it, also where some of its values are no numbers.
theorem Problem.Valid.frames_loadedInstance (h : p.Valid) (mode : ConeMode) :
    (p.loadedInstance mode).Frames p mode :=
  ⟨rfl, _, rfl, ⟨rfl, rfl, rfl⟩, rfl, h.scoped_loaded mode⟩

variable [Numeric α]

-- Carried out on a model of the one problem the plan makes the kinds of the columns those of the
-- other one.
theorem Plan.KindsBetween.map_kind_foldl_put (h : plan.KindsBetween p q) (hs : p.Similar q)
    (hf : ∀ w ∈ plan.writes, m.Fits w)
    (hm : m.columns.map (·.kind) = (p.loaded mode).columns.map (·.kind)) :
    (plan.writes.foldl Model.put m).columns.map (·.kind) =
      (q.loaded mode).columns.map (·.kind) := by
  have hkind (n : Model α) (j : Nat) : (n.columns.map (·.kind))[j]? = n.columnKind? j := by
    rw [List.getElem?_map]
    rfl
  refine List.ext_getElem? fun j => ?_
  rw [hkind, hkind]
  have hagrees : (plan.writes.foldl Model.put m).AgreesAt (q.loaded mode) (.kind j) := by
    refine Model.agreesAt_foldl_put hf (fun w hw he => ?_) fun hj => ?_
    case refine_1 =>
      simp only [writes, List.mem_append, List.mem_map] at hw
      rcases hw with ((⟨c, _, rfl⟩ | ⟨c, _, rfl⟩) | ⟨c, _, rfl⟩) | ⟨c, hc, rfl⟩
      case inr => exact h.toward hc
      all_goals cases he
    case refine_2 =>
      have hk : p.kinds[j]? = q.kinds[j]? := by
        refine h.eq_of_forall_ne hs fun c hc he => hj (.kind c.column c.new) ?_ (congrArg _ he)
        exact List.mem_append_right _ (List.mem_map_of_mem hc)
      rw [Model.AgreesAt, ← hkind, hm, hkind, Problem.columnKind?_loaded,
        Problem.columnKind?_loaded, hk, hs.columns, Problem.columnCount_loaded hs]
  exact hagrees

-- A plan whose places are there can be carried out.
theorem Instance.Frames.yields_apply (h : s.Frames p mode) (hp : p.Valid) (hq : q.Valid)
    (hs : p.Similar q) (hf : ∀ w ∈ plan.writes, (p.loaded mode).Fits w)
    (hk : plan.KindsBetween p q) (hm : s.optimizer.model = some m) (engine : Engine α ω) :
    ∃ s', (Instance.call (plan.apply (ReferenceOptimizer.operations engine))).Yields s () s' ∧
      s'.Frames q mode ∧ s'.optimizer.model = some (plan.writes.foldl Model.put m) := by
  have ⟨m', hm', hsh, hkm, hsc⟩ := h.model
  cases hm.symm.trans hm'
  have hf : ∀ w ∈ plan.writes, m.Fits w := fun w hw => hsh.fits_iff.mpr (hf w hw)
  have ⟨o, ho, hom⟩ := plan.yields_apply engine hm hf
  refine ⟨_, Instance.yields_call ho, ⟨?_, _, hom, ?_, ?_, hsc.foldl_put hf⟩, hom⟩
  · rw [← hs.loadedInstance, h.layout]
  · exact Model.shaped_foldl_put.mpr (hsh.trans (Problem.shaped_loaded hp hq hs))
  · exact hk.map_kind_foldl_put hs hf hkm

end Frames

section Holds

variable [Numeric α] {s : Instance (ReferenceOptimizer α)} {plan : Plan α}

theorem Problem.Admissible.agreesAt_refl (h : p.Admissible) (x : Model.Place) : p.AgreesAt p x := by
  cases x
  case objective j => exact isNumber_getD h.numbers.objective j
  case coefficient i j => exact h.valid.isNumber_entry h.numbers i j
  case rhs i => exact isNumber_getD h.numbers.rhs i
  case kind j => rfl

theorem Problem.Admissible.holds_loadedInstance (h : p.Admissible) (mode : ConeMode) :
    (p.loadedInstance mode).Holds p mode where
  layout := rfl
  model := by
    refine ⟨_, rfl, ?_, h.valid.scoped_loaded mode⟩
    exact (agrees_loaded_iff h.valid h.valid h.numbers h.numbers ⟨rfl, rfl⟩).mpr h.agreesAt_refl

theorem Plan.Between.yields_apply (h : plan.Between p q mode) (hp : p.Valid) (hq : q.Valid)
    (hnp : p.Numbers) (hnq : q.Numbers) (hs : p.Similar q) (engine : Engine α ω)
    (hh : s.Holds p mode) :
    ∃ s', (Instance.call (plan.apply (ReferenceOptimizer.operations engine))).Yields s () s' ∧
      s'.Holds q mode := by
  have ⟨m, hm, ha, _⟩ := hh.model
  have ⟨s', hy, hfr, hm'⟩ := hh.frames.yields_apply hp hq hs (h.fits hp hq hs) h.kinds hm engine
  have ⟨n, hn, _, _, hc⟩ := hfr.model
  cases hm'.symm.trans hn
  exact ⟨s', hy, hfr.layout, _, hm', h.agrees hp hq hs hnp hnq ha, hc⟩

end Holds

namespace Snapshot

variable {s : Snapshot α (ReferenceOptimizer α)} {plan : Plan α}

section Realize

theorem realize_eq_ok_iff (h : s.held.Frames p mode) (hp : p.Valid) {i k : Nat} :
    s.realize i = .ok k ↔ k = i ∧ i < p.heldRows mode := by
  rw [realize, h.realizedRow?_eq hp]
  by_cases hi : i < p.heldRows mode
  case pos => simp [hi, eq_comm]
  case neg => simp [hi, Attempt.refuse]

-- A plan takes the changed rows as they are.
theorem mapM_realize {β : Type} (row : β → Nat) (replace : β → Nat → β) {xs ys : List β}
    (h : s.held.Frames p mode) (hp : p.Valid) (hrow : ∀ x, replace x (row x) = x)
    (hm : xs.mapM (fun x => do return replace x (← s.realize (row x))) = .ok ys) :
    ys = xs ∧ ∀ x ∈ xs, row x < p.heldRows mode := by
  induction xs generalizing ys
  case nil =>
    cases hm
    exact ⟨rfl, nofun⟩
  case cons x xs hi =>
    rw [List.mapM_cons, Attempt.bind_eq_ok_iff] at hm
    have ⟨y, hy, hm⟩ := hm
    have ⟨k, hk, hy⟩ := Attempt.bind_eq_ok_iff.mp hy
    have ⟨zs, hz, hm⟩ := Attempt.bind_eq_ok_iff.mp hm
    have ⟨hk, hheld⟩ := (realize_eq_ok_iff h hp).mp hk
    have ⟨hz, hrest⟩ := hi hz
    cases hy
    cases hm
    rw [hk, hrow, hz]
    refine ⟨rfl, fun z hz => ?_⟩
    rcases List.mem_cons.mp hz with rfl | hz
    · exact hheld
    · exact hrest z hz

theorem mapM_realize_of_forall {β : Type} (row : β → Nat) (replace : β → Nat → β) {xs : List β}
    (h : s.held.Frames p mode) (hp : p.Valid) (hrow : ∀ x, replace x (row x) = x)
    (hx : ∀ x ∈ xs, row x < p.heldRows mode) :
    xs.mapM (fun x => do return replace x (← s.realize (row x))) = .ok xs := by
  refine Lists.mapM_eq_ok_iff.mpr (List.map_congr_left fun x hm => ?_)
  rw [(realize_eq_ok_iff h hp).mpr ⟨rfl, hx x hm⟩]
  exact congrArg Except.ok (hrow x)

end Realize

section Target

theorem similar_of_checkShape (h : s.Outlines p mode) (hp : p.Valid)
    (hc : s.checkShape q = .ok ()) : p.Similar q := by
  simp only [checkShape, ite_error_eq_ok_iff, not_not, Prod.mk.injEq] at hc
  have ⟨hn, ⟨he, hi⟩, hk, _⟩ := hc
  refine ⟨?_, ?_⟩
  · rw [← hp.objective, ← h.objective, hn]
  · rw [← h.partition]
    cases hs : s.partition
    cases hq : q.partition
    simp_all

theorem checkShape_of_similar (h : s.Outlines p mode) (hp : p.Valid) (hs : p.Similar q) :
    s.checkShape q = .ok () := by
  have hn : s.objective.length = q.variableCount := by
    rw [h.objective, hp.objective, hs.columns]
  simp only [checkShape, hn, h.partition, hs.partition, ne_eq, not_true_eq_false, if_false]

omit [Scalar α] in
theorem checkShape_ne_matrixShape : s.checkShape q ≠ .error .matrixShape := by
  unfold checkShape
  dsimp only
  split
  · nofun
  split
  · nofun
  split <;> nofun

omit [Scalar α] in
theorem objective_target : (s.target q).objective =
    if q.parameters.objective then q.objective else s.objective :=
  rfl

omit [Scalar α] in
theorem matrix_target : (s.target q).matrix =
    if q.parameters.constraints then q.matrix else s.matrix :=
  rfl

theorem target_similar (hs : p.Similar q) (h : s.Outlines p mode) : p.Similar (s.target q) := by
  refine ⟨?_, hs.partition⟩
  rw [Problem.variableCount, Problem.variableCount, matrix_target]
  split
  · exact hs.columns
  · rw [h.matrix]

theorem valid_target (hs : p.Similar q) (h : s.Outlines p mode) (hp : p.Valid) (hq : q.Valid) :
    (s.target q).Valid := by
  have hn := target_similar hs h
  have hr : (s.target q).rowCount = q.rowCount := by
    rw [Problem.rowCount, matrix_target]
    split
    · rfl
    · rw [h.matrix]
      exact hs.rowCount hp hq
  refine ⟨?_, ?_, ?_, ?_, ?_, ?_, ?_⟩
  · rw [matrix_target]
    split
    · exact hq.format
    · rw [h.matrix]
      exact hp.format
  · rw [← hn.columns, objective_target]
    split
    · rw [hq.objective, hs.columns]
    · rw [h.objective, hp.objective]
  · rw [hr]
    exact hq.rhs
  · exact hq.cones
  · rw [hr]
    exact hq.rows
  · rw [← hn.columns, hs.columns]
    exact hq.booleans
  · rw [← hn.columns, hs.columns]
    exact hq.integers

theorem numbers_target (h : s.Describes p mode) (hp : p.Numbers) (hq : q.Numbers) :
    (s.target q).Numbers := by
  refine ⟨?_, ?_, hq.rhs⟩
  · rw [objective_target]
    split
    · exact hq.objective
    · rw [h.objective]
      exact hp.objective
  · rw [matrix_target]
    split
    · exact hq.matrix
    · rw [h.matrix]
      exact hp.matrix

-- What the parts of a plan are computed from.
structure Planned (s : Snapshot α (ReferenceOptimizer α)) (q : Problem α) (plan : Plan α) :
    Prop where
  shape     : s.checkShape q = .ok ()
  objective : plan.objective =
    if q.parameters.objective then ValueChange.between s.objective q.objective else []
  matrix    : ∃ changed, (if q.parameters.constraints
      then q.matrix.changesFrom s.matrix = .ok changed else changed = []) ∧
    changed.mapM (fun c => do return { c with row := ← s.realize c.row }) = .ok plan.matrix
  rhs       : (ValueChange.between s.rhs q.rhs).mapM
    (fun c => do return { c with index := ← s.realize c.index }) = .ok plan.rhs
  kinds     : ∃ kinds, q.columnKinds? q.variableCount = some kinds ∧
    plan.kinds = KindChange.between s.kinds kinds

-- The changes to the matrix that a plan is made of.
def changedEntries (s : Snapshot α (ReferenceOptimizer α)) (q : Problem α) :
    Attempt Ineligible (List (EntryChange α)) :=
  if q.parameters.constraints
  then Attempt.mapCause (fun _ => .matrixShape) (q.matrix.changesFrom s.matrix)
  else .ok []

def planWith (s : Snapshot α (ReferenceOptimizer α)) (q : Problem α)
    (changed : List (EntryChange α)) : Attempt Ineligible (Plan α) := do
  let matrix ← changed.mapM fun c => do return { c with row := ← s.realize c.row }
  let rhs ← (ValueChange.between s.rhs q.rhs).mapM fun c => do
    return { c with index := ← s.realize c.index }
  let desired ← .ofOption (q.columnKinds? q.variableCount)
  return {
    objective :=
      if q.parameters.objective then ValueChange.between s.objective q.objective else []
    matrix, rhs, kinds := KindChange.between s.kinds desired }

theorem plan_eq : s.plan q = Attempt.ofExcept (s.checkShape q) >>= fun _ =>
    s.changedEntries q >>= s.planWith q := by
  rw [Snapshot.plan, changedEntries]
  cases q.parameters.constraints <;> rfl

theorem changedEntries_eq_ok_iff {changed : List (EntryChange α)} :
    s.changedEntries q = .ok changed ↔ if q.parameters.constraints
      then q.matrix.changesFrom s.matrix = .ok changed else changed = [] := by
  rw [changedEntries]
  split
  case isTrue => exact Attempt.mapCause_eq_ok_iff
  case isFalse => exact ⟨fun h => (Except.ok.inj h).symm, fun h => congrArg _ h.symm⟩

theorem plan_eq_ok_iff : s.plan q = .ok plan ↔ s.Planned q plan := by
  rw [plan_eq]
  constructor
  case mp =>
    intro h
    have ⟨_, hshape, h⟩ := Attempt.bind_eq_ok_iff.mp h
    have ⟨changed, hm, h⟩ := Attempt.bind_eq_ok_iff.mp h
    have ⟨matrix, hmatrix, h⟩ := Attempt.bind_eq_ok_iff.mp h
    have ⟨rhs, hrhs, h⟩ := Attempt.bind_eq_ok_iff.mp h
    have ⟨kinds, hkinds, h⟩ := Attempt.bind_eq_ok_iff.mp h
    cases h
    exact ⟨Attempt.ofExcept_eq_ok_iff.mp hshape, rfl,
      ⟨changed, changedEntries_eq_ok_iff.mp hm, hmatrix⟩, hrhs,
      kinds, Attempt.ofOption_eq_ok_iff.mp hkinds, rfl⟩
  case mpr =>
    intro ⟨hshape, ho, ⟨changed, hc, hm⟩, hr, kinds, hk, hks⟩
    cases plan
    cases ho
    cases hks
    rw [hshape, changedEntries_eq_ok_iff.mpr hc]
    show s.planWith q changed = _
    rw [planWith, hm, hr, hk]
    rfl

theorem planned_of_plan (h : s.plan q = .ok plan) : s.Planned q plan :=
  plan_eq_ok_iff.mp h

end Target

section Between

variable [Numeric α]

omit [Numeric α] in
theorem mem_between_self {xs : List α} (hx : ∀ x ∈ xs, Scalar.IsNumber x) (c : ValueChange α) :
    ¬(xs[c.index]? = some c.old ∧ xs[c.index]? = some c.new ∧ c.old != c.new) := by
  intro ⟨ho, hn, hd⟩
  have he : c.old = c.new := Option.some.inj (ho ▸ hn)
  have hx := hx c.old (List.mem_of_getElem? ho)
  rw [← he, bne, Bool.not_eq_true'] at hd
  exact absurd hx (by rw [Scalar.IsNumber, hd]; nofun)

omit [Numeric α] in
theorem objective_between (h : s.Outlines p mode) (hnp : p.Numbers) (c : ValueChange α) :
    (c ∈ if q.parameters.objective then ValueChange.between s.objective q.objective else []) ↔
      p.objective[c.index]? = some c.old ∧ (s.target q).objective[c.index]? = some c.new ∧
        c.old != c.new := by
  rw [objective_target, h.objective]
  split
  · exact ValueChange.mem_between
  · exact iff_of_false nofun (mem_between_self hnp.objective c)

theorem mem_changesFrom (h : s.Outlines p mode) (hs : p.Similar q) (hp : p.Valid) (hq : q.Valid) :
    ∃ changed, q.matrix.changesFrom s.matrix = .ok changed ∧
      ∀ c : EntryChange α, c ∈ changed ↔ c.old = p.matrix.entry c.row c.col ∧
        c.new = q.matrix.entry c.row c.col ∧ c.old != c.new := by
  have ⟨cs, hmp, hlp, hfp⟩ := hp.exists_columns
  have ⟨ds, hmq, hlq, hfq⟩ := hq.exists_columns
  have hl : ds.length = cs.length := by rw [hlp, hlq, hs.columns]
  rw [hs.rowCount hp hq] at hmp hfp
  have ⟨found, hfound, hmem⟩ := SparseMatrix.exists_changesFrom hfq hfp hl
  rw [h.matrix, hmp, hmq]
  exact ⟨found, hfound, fun c => by rw [hmem, Numeric.bne_comm]⟩

theorem exists_changedEntries (h : s.Outlines p mode) (hs : p.Similar q) (hp : p.Valid)
    (hq : q.Valid) : ∃ changed, s.changedEntries q = .ok changed := by
  have ⟨found, hfound, _⟩ := mem_changesFrom h hs hp hq
  cases hc : q.parameters.constraints
  case true => exact ⟨found, changedEntries_eq_ok_iff.mpr (by rw [hc]; exact hfound)⟩
  case false => exact ⟨[], changedEntries_eq_ok_iff.mpr (by rw [hc]; rfl)⟩

theorem matrix_between (h : s.Outlines p mode) (hs : p.Similar q) (hp : p.Valid) (hq : q.Valid)
    (hnp : p.Numbers) {changed : List (EntryChange α)}
    (hc : if q.parameters.constraints then q.matrix.changesFrom s.matrix = .ok changed
      else changed = []) (c : EntryChange α) :
    c ∈ changed ↔ c.old = p.matrix.entry c.row c.col ∧
      c.new = (s.target q).matrix.entry c.row c.col ∧ c.old != c.new := by
  rw [matrix_target]
  split at hc
  case isTrue hf =>
    have ⟨found, hfound, hmem⟩ := mem_changesFrom h hs hp hq
    cases hc.symm.trans hfound
    rw [if_pos hf, hmem]
  case isFalse hf =>
    rw [hc, if_neg hf, h.matrix]
    refine iff_of_false nofun fun ⟨ho, hn, hd⟩ => ?_
    have he := hp.isNumber_entry hnp c.row c.col
    rw [ho, hn, bne, Bool.not_eq_true'] at hd
    exact absurd he (by rw [Scalar.IsNumber, hd]; nofun)

omit [Numeric α] in
theorem kinds_target (hs : p.Similar q) (h : s.Outlines p mode) :
    (s.target q).kinds = q.kinds := by
  rw [Problem.kinds, Problem.kinds, ← (target_similar hs h).columns, hs.columns]
  rfl

-- What the changes of a plan are, and where they are in the instance.
structure Compares (s : Snapshot α (ReferenceOptimizer α)) (p q : Problem α) (plan : Plan α)
    (mode : ConeMode) : Prop where
  similar    : p.Similar q
  objective  : plan.objective =
    if q.parameters.objective then ValueChange.between s.objective q.objective else []
  matrix     : if q.parameters.constraints then q.matrix.changesFrom s.matrix = .ok plan.matrix
    else plan.matrix = []
  matrixRows : ∀ c ∈ plan.matrix, c.row < p.heldRows mode
  rhs        : plan.rhs = ValueChange.between s.rhs q.rhs
  rhsRows    : ∀ c ∈ plan.rhs, c.index < p.heldRows mode
  kinds      : plan.KindsBetween p q

omit [Numeric α] in
theorem Outlines.compares (h : s.Outlines p mode) (hp : p.Valid) (hq : q.Valid)
    (hplan : s.plan q = .ok plan) : s.Compares p q plan mode := by
  have hpl := planned_of_plan hplan
  have hs := similar_of_checkShape h hp hpl.shape
  have ⟨changed, hchanged, hmatrix⟩ := hpl.matrix
  have ⟨kinds, hkinds, hk⟩ := hpl.kinds
  have ⟨hm, hmr⟩ := mapM_realize (β := EntryChange α) (·.row) (fun c i => { c with row := i })
    h.held hp (fun _ => rfl) hmatrix
  have ⟨hr, hrr⟩ := mapM_realize (β := ValueChange α) (·.index) (fun c i => { c with index := i })
    h.held hp (fun _ => rfl) hpl.rhs
  rw [hq.columnKinds?_eq] at hkinds
  cases hkinds
  refine ⟨hs, hpl.objective, hm ▸ hchanged, hm ▸ hmr, hr, hr ▸ hrr, fun c => ?_⟩
  have ⟨n, hkp, _⟩ := p.map_kind_loaded mode
  rw [hk, KindChange.mem_between, h.kinds, h.held.kinds, hkp]
  -- The kinds of the columns of slacks have no counterpart.
  refine and_congr_left fun ⟨hq, _⟩ => ?_
  have ⟨hj, _⟩ := List.getElem?_eq_some_iff.mp hq
  rw [Problem.length_kinds, ← hs.columns, ← Problem.length_kinds] at hj
  rw [List.getElem?_append_left hj]

theorem Outlines.fits (h : s.Outlines p mode) (hp : p.Valid) (hq : q.Valid)
    (hplan : s.plan q = .ok plan) : ∀ w ∈ plan.writes, (p.loaded mode).Fits w := by
  have hc := h.compares hp hq hplan
  have hl := p.variableCount_le_columnCount mode
  simp only [Plan.writes, List.mem_append, List.mem_map, or_imp, forall_and, forall_exists_index,
    and_imp, forall_apply_eq_imp_iff₂]
  refine ⟨⟨⟨fun c hm => ?_, fun c hm => ?_⟩, fun c hm => ?_⟩, fun c hm => ?_⟩
  · rw [hc.objective] at hm
    split at hm
    case isFalse => cases hm
    case isTrue =>
      obtain ⟨hi, _⟩ := List.getElem?_eq_some_iff.mp (ValueChange.mem_between.mp hm).1
      have ho := hp.objective
      have hlo := hp.length_objective_loaded mode
      rw [h.objective] at hi
      exact ⟨by omega, by omega⟩
  · have hr := hc.matrixRows c hm
    have hmatrix := hc.matrix
    split at hmatrix
    case isFalse =>
      rw [hmatrix] at hm
      cases hm
    case isTrue =>
      obtain ⟨found, hfound, hmem⟩ := mem_changesFrom h hc.similar hp hq
      cases hmatrix.symm.trans hfound
      have hcol := Plan.Between.col_lt_of_bne hp hq hc.similar ((hmem c).mp hm)
      exact ⟨hp.rowCount_loaded mode ▸ hr, hcol.trans_le hl⟩
  · have hr := hc.rhsRows c hm
    show c.index < (p.loaded mode).rowCount
    exact hp.rowCount_loaded mode ▸ hr
  · obtain ⟨hi, _⟩ := List.getElem?_eq_some_iff.mp ((hc.kinds c).mp hm).1
    rw [Problem.length_kinds] at hi
    exact hi.trans_le hl

section Carry

variable (h : s.Outlines p mode) (hp : p.Valid) (hq : q.Valid) (hplan : s.plan q = .ok plan)
include h hp hq hplan

theorem Outlines.yields_apply (engine : Engine α ω) :
    ∃ m changed, s.held.optimizer.model = some m ∧
      (Instance.call (plan.apply (ReferenceOptimizer.operations engine))).Yields s.held () changed ∧
      changed.Frames q mode ∧ changed.optimizer.model = some (plan.writes.foldl Model.put m) := by
  have hc := h.compares hp hq hplan
  have ⟨m, hm, _⟩ := h.held.model
  have ⟨changed, hy⟩ := h.held.yields_apply hp hq hc.similar (h.fits hp hq hplan) hc.kinds hm engine
  exact ⟨m, changed, hm, hy⟩

-- The way back is open from any instance of the problem that the plan has led to.
theorem Outlines.yields_revert (engine : Engine α ω) {changed : Instance (ReferenceOptimizer α)}
    {m : Model α} (hf : changed.Frames q mode) (hm : changed.optimizer.model = some m) :
    ∃ back, (Instance.call (plan.revert (ReferenceOptimizer.operations engine))).Yields
        changed () back ∧
      back.Frames p mode ∧
      back.optimizer.model = some (plan.reversed.writes.foldl Model.put m) := by
  have hc := h.compares hp hq hplan
  refine hf.yields_apply hq hp hc.similar.symm (Plan.fits_reversed.mpr fun w hw => ?_)
    hc.kinds.reversed hm engine
  exact (Problem.shaped_loaded hp hq hc.similar).fits_iff.mp (h.fits hp hq hplan w hw)

end Carry

-- A plan is made of what differs between the problem of the snapshot and the one that it leads to.
theorem Describes.between (h : s.Describes p mode) (hp : p.Valid) (hq : q.Valid) (hnp : p.Numbers)
    (hplan : s.plan q = .ok plan) : plan.Between p (s.target q) mode := by
  have hc := h.outlines.compares hp hq hplan
  refine ⟨fun c => ?_, matrix_between h.outlines hc.similar hp hq hnp hc.matrix, hc.matrixRows,
    fun c => ?_, hc.rhsRows, fun c => ?_⟩
  · rw [hc.objective]
    exact objective_between h.outlines hnp c
  · rw [hc.rhs, ValueChange.mem_between, h.rhs]
    rfl
  · rw [kinds_target hc.similar h.outlines]
    exact hc.kinds c

omit [Scalar α] [Numeric α] in
theorem meets_realize {σ : Type} (s : Snapshot α σ) (i : Nat) :
    (s.realize i).Meets fun _ => True := by
  unfold realize
  split <;> trivial

theorem Outlines.plan_ne_fault (h : s.Outlines p mode) (hp : p.Valid) (hq : q.Valid) :
    s.plan q ≠ .error .fault := by
  refine Attempt.Meets.ne_fault (q := fun _ => True) ?_
  rw [plan_eq]
  refine (Attempt.meets_ofExcept (q := fun _ => s.checkShape q = .ok ()) fun _ hs => hs).bind
    fun _ hshape => ?_
  have ⟨changed, hc⟩ := exists_changedEntries h (similar_of_checkShape h hp hshape) hp hq
  rw [hc]
  show (s.planWith q changed).Meets _
  rw [planWith, hq.columnKinds?_eq]
  refine (Attempt.meets_mapM (r := fun _ => True) fun c _ => ?_).bind fun _ _ => ?_
  · exact (s.meets_realize c.row).bind fun _ _ => trivial
  refine (Attempt.meets_mapM (r := fun _ => True) fun c _ => ?_).bind fun _ _ => trivial
  exact (s.meets_realize c.index).bind fun _ _ => trivial

omit [Scalar α] [Numeric α] in
theorem exists_of_mapM_realize_eq_error {β : Type} {row : β → Nat} {replace : β → Nat → β}
    {xs : List β} {e : Ineligible}
    (he : xs.mapM (fun x => do return replace x (← s.realize (row x))) = .error (.refused e)) :
    ∃ i, e = .coneRowChange i := by
  have ⟨x, _, he⟩ := Lists.exists_of_mapM_eq_error he
  rcases Attempt.bind_eq_error_iff.mp he with he | ⟨_, _, he⟩
  case inr => cases he
  case inl =>
    unfold realize at he
    split at he <;> cases he
    exact ⟨_, rfl⟩

-- Why there is no plan: the shape is another one, or a row has changed that is not held as a row.
theorem Outlines.refused_plan (h : s.Outlines p mode) (hp : p.Valid) (hq : q.Valid)
    {e : Ineligible} (he : s.plan q = .error (.refused e)) :
    s.checkShape q = .error e ∨ ∃ i, e = .coneRowChange i := by
  rw [plan_eq] at he
  cases hshape : s.checkShape q
  case error e' =>
    rw [hshape] at he
    cases he
    exact .inl rfl
  case ok =>
    have ⟨changed, hc⟩ := exists_changedEntries h (similar_of_checkShape h hp hshape) hp hq
    rw [hshape, hc] at he
    change s.planWith q changed = _ at he
    rw [planWith, hq.columnKinds?_eq] at he
    refine .inr ?_
    rcases Attempt.bind_eq_error_iff.mp he with he | ⟨_, _, he⟩
    · exact exists_of_mapM_realize_eq_error he
    rcases Attempt.bind_eq_error_iff.mp he with he | ⟨_, _, he⟩
    · exact exists_of_mapM_realize_eq_error he
    cases he

end Between
end Snapshot
end ConicProgram
