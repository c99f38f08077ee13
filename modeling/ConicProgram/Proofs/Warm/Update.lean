import ConicProgram.Proofs.Warm.Plan

namespace ConicProgram

variable {α ω : Type} [Scalar α] {p q : Problem α} {mode : ConeMode}

namespace Plan

variable {plan : Plan α} {m : Model α}

-- The kinds that are changed are those that differ between the two problems.
def KindsBetween (plan : Plan α) (p q : Problem α) : Prop :=
  ∀ c, c ∈ plan.kinds ↔
    p.kinds[c.column]? = some c.old ∧ q.kinds[c.column]? = some c.new ∧ c.old ≠ c.new

omit [Scalar α] in
theorem KindsBetween.eq_of_forall_ne (h : plan.KindsBetween p q) (hs : p.Similar q) {j : Nat}
    (hj : ∀ c ∈ plan.kinds, c.column ≠ j) : p.kinds[j]? = q.kinds[j]? := by
  have hl : p.kinds.length = q.kinds.length := by
    rw [Problem.length_kinds, Problem.length_kinds, hs.columns]
  by_cases hlt : j < p.kinds.length
  case neg => rw [List.getElem?_eq_none (by omega), List.getElem?_eq_none (by omega)]
  case pos =>
    have h₁ := List.getElem?_eq_getElem hlt
    have h₂ := List.getElem?_eq_getElem (hl ▸ hlt)
    by_contra hne
    rw [h₁, h₂] at hne
    exact hj ⟨j, _, _⟩ ((h _).mpr ⟨h₁, h₂, fun he => hne (congrArg some he)⟩) rfl

theorem KindsBetween.toward (h : plan.KindsBetween p q) {c : KindChange}
    (hc : c ∈ plan.kinds) : Model.Write.Toward (q.loaded mode) (.kind c.column c.new) := by
  have hk := ((h c).mp hc).2.1
  have ⟨hj, _⟩ := List.getElem?_eq_some_iff.mp hk
  rw [Problem.length_kinds] at hj
  show some c.new = (q.loaded mode).columnKind? c.column
  rw [Problem.columnKind?_loaded, if_pos hj, hk]

section Reversed

theorem mem_map_reversed {β : Type} {f : β → β} (h : ∀ b, f (f b) = b) {bs : List β} {b : β} :
    b ∈ bs.map f ↔ f b ∈ bs := by
  rw [List.mem_map]
  exact ⟨fun ⟨c, hc, hb⟩ => hb ▸ (h c).symm ▸ hc, fun hb => ⟨f b, hb, h b⟩⟩

omit [Scalar α] in
theorem KindsBetween.reversed (h : plan.KindsBetween p q) : plan.reversed.KindsBetween q p := by
  intro c
  have hc := h c.reversed
  rw [Plan.reversed, mem_map_reversed fun _ => rfl, hc, ne_comm]
  exact and_left_comm

omit [Scalar α] in
-- What is written at a place is taken back at the same place.
theorem place_writes_reversed (plan : Plan α) :
    plan.reversed.writes.map (·.place) = plan.writes.map (·.place) := by
  simp only [writes, Plan.reversed, List.map_append, List.map_map]
  rfl

omit [Scalar α] in
theorem forall_place_reversed {P : Model.Place → Prop} :
    (∀ w ∈ plan.reversed.writes, P w.place) ↔ ∀ w ∈ plan.writes, P w.place := by
  have h (ws : List (Model.Write α)) : (∀ w ∈ ws, P w.place) ↔ ∀ x ∈ ws.map (·.place), P x :=
    List.forall_mem_map.symm
  rw [h, place_writes_reversed, ← h]

omit [Scalar α] in
theorem fits_reversed :
    (∀ w ∈ plan.reversed.writes, m.Fits w) ↔ ∀ w ∈ plan.writes, m.Fits w := by
  simp only [Model.fits_iff_hasPlace]
  exact forall_place_reversed

end Reversed
end Plan

-- The changes are those from the one problem to the other, and all of them are in rows of the
-- model.
structure Plan.Between (plan : Plan α) (p q : Problem α) (mode : ConeMode) : Prop where
  objective : ∀ c, c ∈ plan.objective ↔
    p.objective[c.index]? = some c.old ∧ q.objective[c.index]? = some c.new ∧ c.old != c.new
  matrix : ∀ c, c ∈ plan.matrix ↔ c.old = p.matrix.entry c.row c.col ∧
    c.new = q.matrix.entry c.row c.col ∧ c.old != c.new
  matrixRows : ∀ c ∈ plan.matrix, c.row < p.heldRows mode
  rhs : ∀ c, c ∈ plan.rhs ↔
    p.rhs[c.index]? = some c.old ∧ q.rhs[c.index]? = some c.new ∧ c.old != c.new
  rhsRows : ∀ c ∈ plan.rhs, c.index < p.heldRows mode
  kinds : plan.KindsBetween p q

namespace Plan.Between

variable [Numeric α] {plan : Plan α} {m : Model α} {x : Model.Place}

theorem reversed (h : plan.Between p q mode) (hr : p.heldRows mode = q.heldRows mode) :
    plan.reversed.Between q p mode where
  objective c := by
    have hc := h.objective c.reversed
    rw [Plan.reversed, mem_map_reversed fun _ => rfl, hc, Numeric.bne_comm]
    exact and_left_comm
  matrix c := by
    have hc := h.matrix c.reversed
    rw [Plan.reversed, mem_map_reversed fun _ => rfl, hc, Numeric.bne_comm]
    exact and_left_comm
  matrixRows c hc := by
    have hc := h.matrixRows c.reversed ((mem_map_reversed fun _ => rfl).mp hc)
    exact hr ▸ hc
  rhs c := by
    have hc := h.rhs c.reversed
    rw [Plan.reversed, mem_map_reversed fun _ => rfl, hc, Numeric.bne_comm]
    exact and_left_comm
  rhsRows c hc := by
    have hc := h.rhsRows c.reversed ((mem_map_reversed fun _ => rfl).mp hc)
    exact hr ▸ hc
  kinds := h.kinds.reversed

section Changes

-- A place that is not written holds the same in both problems.
theorem agreesAt_of_forall_ne (h : plan.Between p q mode) (hp : p.Valid) (hq : q.Valid)
    (hs : p.Similar q) (hx : ∀ w ∈ plan.writes, w.place ≠ x) : p.AgreesAt q x := by
  simp only [writes, List.mem_append, List.mem_map, or_imp, forall_and, forall_exists_index,
    and_imp, forall_apply_eq_imp_iff₂] at hx
  obtain ⟨⟨⟨ho, hm⟩, hr⟩, hk⟩ := hx
  cases x
  case objective j =>
    show (p.objective.getD j 0 == q.objective.getD j 0) = true
    have hl : p.objective.length = q.objective.length := by
      rw [hp.objective, hq.objective, hs.columns]
    by_contra hne
    obtain ⟨x, y, hd⟩ := (Numeric.not_getD_beq_iff hl).mp hne
    exact ho ⟨j, x, y⟩ ((h.objective _).mpr hd) rfl
  case coefficient i j =>
    show (p.matrix.entry i j == q.matrix.entry i j) = true
    by_contra hne
    exact hm ⟨i, j, _, _⟩ ((h.matrix _).mpr ⟨rfl, rfl, by simpa [bne] using hne⟩) rfl
  case rhs i =>
    show (p.rhs.getD i 0 == q.rhs.getD i 0) = true
    have hl : p.rhs.length = q.rhs.length := by rw [hp.rhs, hq.rhs, hs.rowCount hp hq]
    by_contra hne
    obtain ⟨x, y, hd⟩ := (Numeric.not_getD_beq_iff hl).mp hne
    exact hr ⟨i, x, y⟩ ((h.rhs _).mpr hd) rfl
  case kind j => exact h.kinds.eq_of_forall_ne hs fun c hc hj => hk c hc (congrArg _ hj)

-- Rows that the model does not hold as rows are left as they are.
theorem agreesAt_of_heldRows_le (h : plan.Between p q mode) (hp : p.Valid) (hq : q.Valid)
    (hs : p.Similar q) {i : Nat} (hi : p.heldRows mode ≤ i) :
    p.rhs.getD i 0 == q.rhs.getD i 0 ∧ ∀ j, p.matrix.entry i j == q.matrix.entry i j := by
  have hne : ∀ w ∈ plan.writes, w.place ≠ .rhs i ∧ ∀ j, w.place ≠ .coefficient i j := by
    simp only [writes, List.mem_append, List.mem_map, or_imp, forall_and, forall_exists_index,
      and_imp, forall_apply_eq_imp_iff₂, Model.Write.place, ne_eq, Model.Place.rhs.injEq,
      Model.Place.coefficient.injEq, reduceCtorEq, not_false_eq_true, implies_true, and_true,
      true_and, not_and]
    refine ⟨fun c hc he => ?_, fun c hc j he => ?_⟩
    · exact absurd (h.rhsRows c hc) (not_lt.mpr (he ▸ hi))
    · exact absurd (h.matrixRows c hc) (not_lt.mpr (he ▸ hi))
  exact ⟨h.agreesAt_of_forall_ne (x := .rhs i) hp hq hs fun w hw => (hne w hw).1,
    fun j => h.agreesAt_of_forall_ne (x := .coefficient i j) hp hq hs fun w hw => (hne w hw).2 j⟩

theorem col_lt_of_bne (hp : p.Valid) (hq : q.Valid) (hs : p.Similar q) {c : EntryChange α}
    (hc : c.old = p.matrix.entry c.row c.col ∧ c.new = q.matrix.entry c.row c.col ∧
      c.old != c.new) : c.col < p.variableCount := by
  by_contra hj
  have ⟨ho, hn, hd⟩ := hc
  rw [ho, hn, hp.entry_eq_zero (not_lt.mp hj), hq.entry_eq_zero (hs.columns ▸ not_lt.mp hj)] at hd
  simp [EntryChange.zero_bne_zero] at hd

section Writes

variable (h : plan.Between p q mode) (hp : p.Valid) (hq : q.Valid) (hs : p.Similar q)
include h hp hq hs

theorem fits : ∀ w ∈ plan.writes, (p.loaded mode).Fits w := by
  have hl := p.variableCount_le_columnCount mode
  simp only [writes, List.mem_append, List.mem_map, or_imp, forall_and, forall_exists_index,
    and_imp, forall_apply_eq_imp_iff₂]
  refine ⟨⟨⟨fun c hc => ?_, fun c hc => ?_⟩, fun c hc => ?_⟩, fun c hc => ?_⟩
  · obtain ⟨hi, _⟩ := List.getElem?_eq_some_iff.mp ((h.objective c).mp hc).1
    have ho := hp.objective
    have hlo := hp.length_objective_loaded mode
    exact ⟨by omega, by omega⟩
  · have hr := h.matrixRows c hc
    exact ⟨hp.rowCount_loaded mode ▸ hr, (col_lt_of_bne hp hq hs ((h.matrix c).mp hc)).trans_le hl⟩
  · have hr := h.rhsRows c hc
    show c.index < (p.loaded mode).rowCount
    exact hp.rowCount_loaded mode ▸ hr
  · obtain ⟨hi, _⟩ := List.getElem?_eq_some_iff.mp ((h.kinds c).mp hc).1
    rw [Problem.length_kinds] at hi
    exact hi.trans_le hl

theorem toward (hnq : q.Numbers) : ∀ w ∈ plan.writes, w.Toward (q.loaded mode) := by
  have hheld : p.heldRows mode = q.heldRows mode := Problem.heldRows_eq hp hq hs
  simp only [writes, List.mem_append, List.mem_map, or_imp, forall_and, forall_exists_index,
    and_imp, forall_apply_eq_imp_iff₂]
  refine ⟨⟨⟨fun c hc => ?_, fun c hc => ?_⟩, fun c hc => ?_⟩, fun c hc => ?_⟩
  · have hv := ((h.objective c).mp hc).2.1
    show (c.new == (q.loaded mode).objective.getD c.index 0) = true
    rw [Problem.objective_getD_loaded, List.getD_eq_getElem?_getD, hv]
    exact hnq.objective _ (List.mem_of_getElem? hv)
  · have hr := h.matrixRows c hc
    have hj := col_lt_of_bne hp hq hs ((h.matrix c).mp hc)
    show (c.new == (q.loaded mode).coefficient c.row c.col) = true
    rw [hq.coefficient_loaded, if_pos (hheld ▸ hr), ((h.matrix c).mp hc).2.1]
    exact Numeric.symm (hq.coefficient_heldRow hnq (hs.columns ▸ hj))
  · have hr := h.rhsRows c hc
    have hv := ((h.rhs c).mp hc).2.1
    show (c.new == (q.loaded mode).rowRhs c.index) = true
    rw [hq.rowRhs_loaded, if_pos (hheld ▸ hr), List.getD_eq_getElem?_getD, hv]
    exact hnq.rhs _ (List.mem_of_getElem? hv)
  · exact h.kinds.toward hc

-- Carried out on a model of the one problem the plan makes a model of the other one.
theorem agrees (hnp : p.Numbers) (hnq : q.Numbers) (hm : m.Agrees (p.loaded mode)) :
    (plan.writes.foldl Model.put m).Agrees (q.loaded mode) := by
  have hl : m.Alike (q.loaded mode) := hm.alike.trans <|
    Problem.alike_loaded hp hq hnp hnq hs fun i hi _ => h.agreesAt_of_heldRows_le hp hq hs hi
  refine Model.agrees_foldl_put hl (fun w hw => ?_) (h.toward hp hq hs hnq) fun x hx => ?_
  · exact hm.alike.fits_iff.mpr (h.fits hp hq hs w hw)
  · exact (hm.agreesAt x).trans <|
      Problem.agreesAt_loaded hp hq hnp hnq hs (h.agreesAt_of_forall_ne hp hq hs hx)

-- The reversed plan takes the model back, however much of the plan has been carried out and whatever
-- numbers it has put into the model.
theorem agrees_back_of_subset {ws : List (Model.Write α)} (hws : ws ⊆ plan.writes)
    (hnp : p.Numbers) (hm : m.Agrees (p.loaded mode)) :
    (plan.reversed.writes.foldl Model.put (ws.foldl Model.put m)).Agrees (p.loaded mode) := by
  have hr := h.reversed (Problem.heldRows_eq hp hq hs)
  have hf : ∀ w ∈ plan.writes, m.Fits w := fun w hw =>
    hm.alike.fits_iff.mpr (h.fits hp hq hs w hw)
  refine Model.agrees_foldl_put (Model.alike_foldl_put.mpr hm.alike) (fun w hw => ?_)
    (hr.toward hq hp hs.symm hnp) fun x hx => ?_
  · exact Model.fits_foldl_put.mpr (fits_reversed.mpr hf w hw)
  · have hx : ∀ w ∈ plan.writes, w.place ≠ x := forall_place_reversed (P := (· ≠ x)).mp hx
    exact Model.agreesAt_foldl_put (fun w hw => hf w (hws hw))
      (fun w hw he => absurd he (hx w (hws hw))) fun _ => hm.agreesAt x

theorem agrees_back (hnp : p.Numbers) (hm : m.Agrees (p.loaded mode)) :
    (plan.reversed.writes.foldl Model.put (plan.writes.foldl Model.put m)).Agrees
      (p.loaded mode) :=
  h.agrees_back_of_subset hp hq hs (List.Subset.refl _) hnp hm

end Writes
end Changes
end Plan.Between
end ConicProgram
