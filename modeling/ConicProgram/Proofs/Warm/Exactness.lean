import ConicProgram.Proofs.Warm.Rollback

namespace ConicProgram

variable {α ω : Type} [Scalar α] {p q : Problem α} {mode : ConeMode}

-- An instance of the one problem can be taken to the other one. Where cones are held in constraints
-- their rows have to be the same.
structure Problem.Updatable (p q : Problem α) (mode : ConeMode) : Prop where
  similar : p.Similar q
  cones   : mode = .substituted → ∀ b ∈ p.partition.blocks, ∀ i ∈ b.rows,
    p.AgreesAt q (.rhs i) ∧ (q.parameters.constraints → ∀ j, p.AgreesAt q (.coefficient i j))

-- The plan is made of the differences between the problems, each of them at its place in the
-- instance.
structure Plan.Exact (plan : Plan α) (p q : Problem α) (s : Instance (ReferenceOptimizer α)) :
    Prop where
  objective  : ∀ c, c ∈ plan.objective ↔ q.parameters.objective ∧
    p.objective[c.index]? = some c.old ∧ q.objective[c.index]? = some c.new ∧ c.old != c.new
  matrix     : ∀ c, c ∈ plan.matrix ↔ q.parameters.constraints ∧
    ∃ i, s.realizedRow? i = some c.row ∧
      c.old = p.matrix.entry i c.col ∧ c.new = q.matrix.entry i c.col ∧ c.old != c.new
  matrixRows : q.parameters.constraints → ∀ i j, ¬p.AgreesAt q (.coefficient i j) →
    (s.realizedRow? i).isSome
  rhs        : ∀ c, c ∈ plan.rhs ↔ ∃ i, s.realizedRow? i = some c.index ∧
    p.rhs[i]? = some c.old ∧ q.rhs[i]? = some c.new ∧ c.old != c.new
  rhsRows    : ∀ i, ¬p.AgreesAt q (.rhs i) → (s.realizedRow? i).isSome
  kinds      : ∀ c, c ∈ plan.kinds ↔
    p.kinds[c.column]? = some c.old ∧ q.kinds[c.column]? = some c.new ∧ c.old ≠ c.new
  once       : (plan.writes.map (·.place)).Nodup
  inside     : ∀ m, s.optimizer.model = some m → ∀ w ∈ plan.writes, m.HasPlace w.place

variable [Numeric α]

namespace Problem

omit [Numeric α] in
theorem not_agreesAt_coefficient {i j : Nat} :
    ¬p.AgreesAt q (.coefficient i j) ↔ p.matrix.entry i j != q.matrix.entry i j := by
  simp [AgreesAt, bne]

theorem Valid.not_agreesAt_rhs (hp : p.Valid) (hq : q.Valid) (hs : p.Similar q) {i : Nat} :
    ¬p.AgreesAt q (.rhs i) ↔ ∃ x y, p.rhs[i]? = some x ∧ q.rhs[i]? = some y ∧ x != y := by
  have hl : p.rhs.length = q.rhs.length := by rw [hp.rhs, hq.rhs, hs.rowCount hp hq]
  exact Numeric.not_getD_beq_iff hl

-- A row that differs is a row of the model.
theorem Updatable.lt_heldRows (h : p.Updatable q mode) (hp : p.Valid) (hq : q.Valid) {i : Nat}
    (hi : ¬p.AgreesAt q (.rhs i) ∨
      q.parameters.constraints ∧ ∃ j, ¬p.AgreesAt q (.coefficient i j)) :
    i < p.heldRows mode := by
  have hrow : i < p.rowCount := by
    rcases hi with hi | ⟨_, j, hi⟩
    · obtain ⟨_, _, hx, _⟩ := (hp.not_agreesAt_rhs hq h.similar).mp hi
      obtain ⟨hi, _⟩ := List.getElem?_eq_some_iff.mp hx
      exact hp.rhs ▸ hi
    · by_contra hle
      refine hi ?_
      rw [AgreesAt, hp.entry_eq_zero_of_rowCount_le (not_lt.mp hle),
        hq.entry_eq_zero_of_rowCount_le (h.similar.rowCount hp hq ▸ not_lt.mp hle)]
      exact Numeric.zero_isNumber
  cases mode
  case auxiliary => exact hrow
  case substituted =>
    by_contra hle
    obtain ⟨b, hb, hib⟩ := hp.mem_rows_block.mpr ⟨not_lt.mp hle, hrow⟩
    obtain ⟨hr, hm⟩ := h.cones rfl b hb i hib
    rcases hi with hi | ⟨hf, j, hi⟩
    · exact hi hr
    · exact hi (hm hf j)

end Problem

namespace Snapshot

variable {s : Snapshot α (ReferenceOptimizer α)} {plan : Plan α}

theorem Describes.updatable (h : s.Describes p mode) (hp : p.Admissible) (hq : q.Valid)
    (hplan : s.plan q = .ok plan) : p.Updatable q mode := by
  have hs := similar_of_checkShape h.outlines hp.valid (planned_of_plan hplan).shape
  have hb := h.between hp.valid hq hp.numbers hplan
  refine ⟨hs, fun hm b hbl i hi => ?_⟩
  subst hm
  have ⟨hr, hc⟩ := hb.agreesAt_of_heldRows_le hp.valid (valid_target hs h.outlines hp.valid hq)
    (target_similar hs h.outlines) (hp.valid.mem_rows_block.mp ⟨b, hbl, hi⟩).1
  refine ⟨hr, fun hf j => ?_⟩
  have hc := hc j
  rw [matrix_target, if_pos hf] at hc
  exact hc

theorem Describes.exists_plan (h : s.Describes p mode) (hp : p.Admissible) (hq : q.Valid)
    (hu : p.Updatable q mode) : ∃ plan, s.plan q = .ok plan := by
  have hs := hu.similar
  have ⟨changed, hc⟩ := exists_changedEntries h.outlines hs hp.valid hq
  have hch := changedEntries_eq_ok_iff.mp hc
  refine ⟨⟨_, changed, ValueChange.between s.rhs q.rhs, _⟩, plan_eq_ok_iff.mpr
    ⟨checkShape_of_similar h.outlines hp.valid hs, rfl, ⟨changed, hch, ?_⟩, ?_, q.kinds,
      hq.columnKinds?_eq, rfl⟩⟩
  · refine mapM_realize_of_forall (β := EntryChange α) (·.row) (fun c i => { c with row := i })
      h.outlines.held hp.valid (fun _ => rfl) fun c hm => hu.lt_heldRows hp.valid hq (.inr ?_)
    split at hch
    case isFalse =>
      rw [hch] at hm
      cases hm
    case isTrue hf =>
      have ⟨found, hfound, hmem⟩ := mem_changesFrom h.outlines hs hp.valid hq
      cases hch.symm.trans hfound
      have ⟨ho, hn, hd⟩ := (hmem c).mp hm
      exact ⟨hf, c.col, Problem.not_agreesAt_coefficient.mpr (ho ▸ hn ▸ hd)⟩
  · refine mapM_realize_of_forall (β := ValueChange α) (·.index) (fun c i => { c with index := i })
      h.outlines.held hp.valid (fun _ => rfl) fun c hm => hu.lt_heldRows hp.valid hq (.inl ?_)
    have ⟨ho, hn, hd⟩ := ValueChange.mem_between.mp hm
    exact (hp.valid.not_agreesAt_rhs hq hs).mpr ⟨_, _, h.rhs ▸ ho, hn, hd⟩

theorem pairwise_changesFrom (h : s.Outlines p mode) (hs : p.Similar q) (hp : p.Valid)
    (hq : q.Valid) {changed : List (EntryChange α)}
    (hc : q.matrix.changesFrom s.matrix = .ok changed) : changed.Pairwise EntryChange.Before := by
  have ⟨cs, hmp, hlp, hfp⟩ := hp.exists_columns
  have ⟨ds, hmq, hlq, hfq⟩ := hq.exists_columns
  rw [hs.rowCount hp hq] at hmp hfp
  rw [h.matrix, hmp, hmq] at hc
  exact SparseMatrix.pairwise_changesFrom hfq hfp (by rw [hlp, hlq, hs.columns]) hc

theorem Outlines.nodup_places (h : s.Outlines p mode) (hp : p.Valid) (hq : q.Valid)
    (hplan : s.plan q = .ok plan) : (plan.writes.map (·.place)).Nodup := by
  have hc := h.compares hp hq hplan
  refine Plan.nodup_places ?_ ?_ ?_ ?_
  · rw [hc.objective]
    split
    · exact ValueChange.pairwise_between ..
    · exact .nil
  · have hm := hc.matrix
    split at hm
    · exact pairwise_changesFrom h hc.similar hp hq hm
    · exact hm ▸ .nil
  · exact hc.rhs ▸ ValueChange.pairwise_between ..
  · have ⟨_, _, hk⟩ := (planned_of_plan hplan).kinds
    exact hk ▸ KindChange.pairwise_between ..

section Exact

variable (h : s.Describes p mode) (hp : p.Admissible) (hq : q.Valid) (hplan : s.plan q = .ok plan)
include h hp hq hplan

omit [Numeric α] in
theorem Describes.mem_objective_iff {c : ValueChange α} :
    c ∈ plan.objective ↔ q.parameters.objective ∧ p.objective[c.index]? = some c.old ∧
      q.objective[c.index]? = some c.new ∧ c.old != c.new := by
  rw [(h.outlines.compares hp.valid hq hplan).objective, h.objective]
  split
  case isTrue hf => exact ValueChange.mem_between.trans (iff_and_self.mpr fun _ => hf)
  case isFalse hf => exact iff_of_false nofun fun h => hf h.1

theorem Describes.mem_matrix_iff {c : EntryChange α} :
    c ∈ plan.matrix ↔ q.parameters.constraints ∧ ∃ i, s.held.realizedRow? i = some c.row ∧
      c.old = p.matrix.entry i c.col ∧ c.new = q.matrix.entry i c.col ∧ c.old != c.new := by
  have hc := h.outlines.compares hp.valid hq hplan
  have hm := hc.matrix
  split at hm
  case isFalse hf =>
    rw [hm]
    exact iff_of_false nofun fun h => hf h.1
  case isTrue hf =>
    have ⟨found, hfound, hmem⟩ := mem_changesFrom h.outlines hc.similar hp.valid hq
    cases hm.symm.trans hfound
    constructor
    case mp =>
      intro hm
      exact ⟨hf, c.row, (h.outlines.held.realizedRow?_eq_some_iff hp.valid).mpr
        ⟨rfl, hc.matrixRows c hm⟩, (hmem c).mp hm⟩
    case mpr =>
      intro ⟨_, i, hi, hv⟩
      have ⟨hi, _⟩ := (h.outlines.held.realizedRow?_eq_some_iff hp.valid).mp hi
      exact (hmem c).mpr (hi ▸ hv)

omit [Numeric α] in
theorem Describes.mem_rhs_iff {c : ValueChange α} :
    c ∈ plan.rhs ↔ ∃ i, s.held.realizedRow? i = some c.index ∧ p.rhs[i]? = some c.old ∧
      q.rhs[i]? = some c.new ∧ c.old != c.new := by
  have hc := h.outlines.compares hp.valid hq hplan
  have hmem : c ∈ plan.rhs ↔ p.rhs[c.index]? = some c.old ∧ q.rhs[c.index]? = some c.new ∧
      c.old != c.new := by
    rw [hc.rhs, ValueChange.mem_between, h.rhs]
  constructor
  case mp =>
    intro hm
    exact ⟨c.index, (h.outlines.held.realizedRow?_eq_some_iff hp.valid).mpr
      ⟨rfl, hc.rhsRows c hm⟩, hmem.mp hm⟩
  case mpr =>
    intro ⟨i, hi, hv⟩
    have ⟨hi, _⟩ := (h.outlines.held.realizedRow?_eq_some_iff hp.valid).mp hi
    exact hmem.mpr (hi ▸ hv)

theorem Describes.hasPlace {m : Model α} (hm : s.held.optimizer.model = some m) :
    ∀ w ∈ plan.writes, m.HasPlace w.place := by
  intro w hw
  have ⟨m', hm', ha, _⟩ := h.held.model
  cases hm.symm.trans hm'
  exact Model.fits_iff_hasPlace.mp (ha.alike.fits_iff.mpr (h.outlines.fits hp.valid hq hplan w hw))

theorem Describes.exact : plan.Exact p q s.held where
  objective _ := h.mem_objective_iff hp hq hplan
  matrix _ := h.mem_matrix_iff hp hq hplan
  matrixRows hf i j hd := by
    have hi := (h.updatable hp hq hplan).lt_heldRows hp.valid hq (.inr ⟨hf, j, hd⟩)
    rw [h.outlines.held.realizedRow?_eq hp.valid, if_pos hi]
    rfl
  rhs _ := h.mem_rhs_iff hp hq hplan
  rhsRows i hd := by
    have hi := (h.updatable hp hq hplan).lt_heldRows hp.valid hq (.inl hd)
    rw [h.outlines.held.realizedRow?_eq hp.valid, if_pos hi]
    rfl
  kinds := (h.outlines.compares hp.valid hq hplan).kinds
  once := h.outlines.nodup_places hp.valid hq hplan
  inside _ hm := h.hasPlace hp hq hplan hm

end Exact

end Snapshot

-- A problem is no change to itself.
theorem Plan.Exact.isEmpty {plan : Plan α} {s : Instance (ReferenceOptimizer α)}
    (h : plan.Exact p p s) (hp : p.Admissible) : plan.isEmpty := by
  have ho : plan.objective = [] := List.eq_nil_iff_forall_not_mem.mpr fun c hc =>
    Snapshot.mem_between_self hp.numbers.objective c ((h.objective c).mp hc).2
  have hm : plan.matrix = [] := by
    refine List.eq_nil_iff_forall_not_mem.mpr fun c hc => ?_
    have ⟨_, i, _, ho, hn, hd⟩ := (h.matrix c).mp hc
    rw [ho, hn] at hd
    exact Problem.not_agreesAt_coefficient.mpr hd (hp.agreesAt_refl _)
  have hr : plan.rhs = [] := by
    refine List.eq_nil_iff_forall_not_mem.mpr fun c hc => ?_
    have ⟨i, _, hv⟩ := (h.rhs c).mp hc
    exact Snapshot.mem_between_self hp.numbers.rhs ⟨i, c.old, c.new⟩ hv
  have hk : plan.kinds = [] := by
    refine List.eq_nil_iff_forall_not_mem.mpr fun c hc => ?_
    have ⟨ho, hn, hd⟩ := (h.kinds c).mp hc
    exact hd (Option.some.inj (ho.symm.trans hn))
  rw [Plan.isEmpty, ho, hm, hr, hk]
  rfl

-- There is a plan exactly if the instance can be taken to the other problem, and the plan is exact.
-- That the matrices cannot be compared is never the reason why there is none.
theorem Snapshot.plan_exact (engine : Engine α ω) (mode : ConeMode) (name : String)
    (c : Cache α (ReferenceOptimizer α)) (hp : p.Admissible) (hq : q.validate = .ok ()) :
    ∃ held s,
      (Instance.coldLoad (ReferenceOptimizer.operations engine) p mode).Yields c held c ∧
      (c.store (ReferenceOptimizer.operations engine) name held p).get? name = some s ∧
      ((∃ plan, s.plan q = .ok plan) ↔ p.Updatable q mode) ∧
      s.plan q ≠ .error (.refused .matrixShape) ∧
      s.plan q ≠ .error .fault ∧
      (∀ plan, s.plan q = .ok plan → plan.Exact p q s.held) ∧
      ∃ plan, s.plan p = .ok plan ∧ plan.isEmpty := by
  have ⟨s, hs, hd⟩ := Cache.describes_store engine c name (hp.holds_loadedInstance mode)
  have hq := Problem.valid_of_validate hq
  refine ⟨_, s, hp.valid.yields_coldLoad engine mode hp.validated hp.indexable c, hs,
    ⟨fun ⟨_, hplan⟩ => hd.updatable hp hq hplan, hd.exists_plan hp hq⟩, fun he => ?_,
    hd.outlines.plan_ne_fault hp.valid hq, fun _ => hd.exact hp hq, ?_⟩
  · rcases hd.outlines.refused_plan hp.valid hq he with he | ⟨_, he⟩
    · exact checkShape_ne_matrixShape he
    · cases he
  · have ⟨plan, hplan⟩ := hd.exists_plan hp hp.valid
      ⟨⟨rfl, rfl⟩, fun _ _ _ _ _ => ⟨hp.agreesAt_refl _, fun _ _ => hp.agreesAt_refl _⟩⟩
    exact ⟨plan, hplan, (hd.exact hp hp.valid hplan).isEmpty hp⟩

-- The rows of the cone are the same in both problems, so that there is a plan in this mode as well.
theorem Snapshot.plan_exact_turning :
    ∃ held, ∃ s : Snapshot Float (ReferenceOptimizer Float),
      (Instance.coldLoad (ReferenceOptimizer.operations (ω := Unit) fun _ => pure (.error "down"))
        (.disc (1, 1) 1) .substituted).Yields ({} : Cache Float (ReferenceOptimizer Float)) held {} ∧
      (Cache.store {} (ReferenceOptimizer.operations (ω := Unit) fun _ => pure (.error "down"))
        "disc" held (.disc (1, 1) 1)).get? "disc" = some s ∧
      (Problem.disc (1, 1) 1).Updatable .turnedDisc .substituted ∧
      s.plan .turnedDisc = .ok .turning ∧
      Plan.turning.Exact (.disc (1, 1) 1) .turnedDisc s.held := by
  have h₁ : Scalar.IsNumber (1 : Float) := Numeric.one_isNumber
  have hp := Problem.admissible_disc h₁ h₁ h₁
  have ⟨held, s, hy, hs, hiff, _, _, hexact, _⟩ := plan_exact (q := .turnedDisc) (ω := Unit)
    (fun _ => pure (.error "down")) .substituted "disc" {} hp rfl
  have hplan := (hp.describes_of_coldLoad hy hs).plan_turnedDisc
  exact ⟨held, s, hy, hs, hiff.mp ⟨_, hplan⟩, hplan, hexact _ hplan⟩

end ConicProgram
