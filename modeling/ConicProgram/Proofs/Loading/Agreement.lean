import ConicProgram.Proofs.Loading.Places

namespace ConicProgram

variable {α : Type} [Scalar α] {i j : Nat}

section Expressions

theorem AffineExpr.agrees_ofColumn [Numeric α] (col : Nat) :
    (ofColumn col : AffineExpr α).Agrees (ofColumn col) where
  constant := Numeric.zero_isNumber
  coefficients j := by
    rw [coefficient_eq (by simp [ofColumn]), ofColumn, entryAt_cons]
    split
    case isTrue => exact Numeric.one_isNumber
    case isFalse => exact Numeric.zero_isNumber

theorem ConeBlock.forall₂_constraint {b : ConeBlock} {xs ys : List (AffineExpr α)}
    (h : xs.length = ys.length) :
    List.Forall₂ ConeConstraint.Agrees (b.constraint xs) (b.constraint ys) ↔
      List.Forall₂ AffineExpr.Agrees xs ys := by
  cases xs <;> cases ys <;> simp_all [constraint]
  constructor
  case mp =>
    rintro ⟨_, ha, hl⟩
    exact ⟨ha, hl⟩
  case mpr =>
    rintro ⟨ha, hl⟩
    exact ⟨rfl, ha, hl⟩

theorem ConeBlock.forall₂_constraints {f g : Nat → AffineExpr α} {bs : List ConeBlock} :
    List.Forall₂ ConeConstraint.Agrees (bs.flatMap fun b => b.constraint (b.rows.toList.map f))
      (bs.flatMap fun b => b.constraint (b.rows.toList.map g)) ↔
    ∀ b ∈ bs, ∀ i ∈ b.rows, (f i).Agrees (g i) := by
  induction bs
  case nil => simp
  case cons b bs hi =>
    rw [List.flatMap_cons, List.flatMap_cons, List.forall_mem_cons]
    refine (Lists.forall₂_append_iff (by simp [length_constraint])).trans (and_congr ?_ hi)
    rw [forall₂_constraint (by simp), List.forall₂_map_left_iff, List.forall₂_map_right_iff,
      List.forall₂_same]
    simp only [Span.mem_toList]

end Expressions

namespace Problem

variable [Numeric α] {p q : Problem α} {mode : ConeMode}

section Slacks

theorem Valid.coefficient_slack (h : p.Valid) (hn : p.Numbers) (i j : Nat) :
    (p.slack i).coefficient j == -p.matrix.entry i j := by
  have ⟨cs, hm, _, hf⟩ := h.exists_columns
  have hd : ((p.slack i).terms.map (·.1)).Nodup := by
    have := (hf.row_increasing i).nodup
    rw [← hm] at this
    simpa [slack, Function.comp_def] using this
  have he := h.isNumber_entry hn i j
  rw [← h.entryAt_row, entryAt] at he ⊢
  rw [AffineExpr.coefficient_eq hd, slack, entryAt, lookup_map]
  cases hl : (p.matrix.row i).lookup j
  case none => exact Numeric.symm Numeric.neg_zero
  case some v =>
    rw [hl] at he
    exact Numeric.neg_isNumber he

theorem agrees_slack_iff (hp : p.Valid) (hq : q.Valid) (hnp : p.Numbers) (hnq : q.Numbers) :
    (p.slack i).Agrees (q.slack i) ↔
      p.rhs.getD i 0 == q.rhs.getD i 0 ∧ ∀ j, p.matrix.entry i j == q.matrix.entry i j := by
  have hcp := hp.coefficient_slack hnp i
  have hcq := hq.coefficient_slack hnq i
  constructor
  case mp =>
    refine fun h => ⟨h.constant, fun j => ?_⟩
    exact Numeric.beq_of_neg (hp.isNumber_entry hnp i j) (hq.isNumber_entry hnq i j) <|
      Numeric.trans (Numeric.symm (hcp j)) (Numeric.trans (h.coefficients j) (hcq j))
  case mpr =>
    refine fun h => ⟨h.1, fun j => ?_⟩
    exact Numeric.trans (hcp j) <|
      Numeric.trans (Numeric.neg_congr (h.2 j)) (Numeric.symm (hcq j))

omit [Numeric α] in
theorem Similar.cones_loaded_auxiliary (hs : p.Similar q) :
    (q.loaded .auxiliary).cones = (p.loaded .auxiliary).cones := by
  simp only [loaded, loadedWith, hs.partition, hs.slackColumn_eq]

-- The constraints on slacks name columns only, which are numbers.
theorem agrees_refl_of_mem_cones {c : ConeConstraint α} (hc : c ∈ (p.loaded .auxiliary).cones) :
    c.Agrees c := by
  obtain ⟨b, _, hc⟩ := List.mem_flatMap.mp hc
  split at hc
  case isTrue => cases hc
  case isFalse =>
    have hx : List.Forall₂ AffineExpr.Agrees
        (b.rows.toList.map fun i => (.ofColumn (p.slackColumn i) : AffineExpr α))
        (b.rows.toList.map fun i => .ofColumn (p.slackColumn i)) := by
      rw [List.forall₂_map_left_iff, List.forall₂_map_right_iff, List.forall₂_same]
      exact fun i _ => AffineExpr.agrees_ofColumn _
    exact List.forall₂_same.mp ((ConeBlock.forall₂_constraint rfl).mpr hx) c hc

-- The constraints agree if the rows do that are held in them.
theorem forall₂_cones_loaded (hp : p.Valid) (hq : q.Valid) (hnp : p.Numbers) (hnq : q.Numbers)
    (hs : p.Similar q) :
    List.Forall₂ ConeConstraint.Agrees (p.loaded mode).cones (q.loaded mode).cones ↔
      ∀ i, p.heldRows mode ≤ i → i < p.rowCount → p.rhs.getD i 0 == q.rhs.getD i 0 ∧
        ∀ j, p.matrix.entry i j == q.matrix.entry i j := by
  cases mode
  case substituted =>
    rw [loaded, loaded, loadedWith, loadedWith, ← hs.partition, ConeBlock.forall₂_constraints]
    simp only [agrees_slack_iff hp hq hnp hnq]
    constructor
    case mp =>
      intro h i h₁ h₂
      obtain ⟨b, hb, hi⟩ := hp.mem_rows_block.mpr ⟨h₁, h₂⟩
      exact h b hb i hi
    case mpr =>
      intro h b hb i hi
      obtain ⟨h₁, h₂⟩ := hp.mem_rows_block.mp ⟨b, hb, hi⟩
      exact h i h₁ h₂
  case auxiliary =>
    refine iff_of_true ?_ fun i h₁ h₂ => absurd h₁ (not_le.mpr h₂)
    rw [hs.cones_loaded_auxiliary, List.forall₂_same]
    exact fun c hc => agrees_refl_of_mem_cones hc

end Slacks

section Places

variable {x : Model.Place}

-- The problems have the same number, or the same kind, at the place.
def AgreesAt (p q : Problem α) : Model.Place → Prop
  | .objective col => p.objective.getD col 0 == q.objective.getD col 0
  | .coefficient row col => p.matrix.entry row col == q.matrix.entry row col
  | .rhs row => p.rhs.getD row 0 == q.rhs.getD row 0
  | .kind col => p.kinds[col]? = q.kinds[col]?

omit [Numeric α] in
theorem Valid.rowRhs_loaded (h : p.Valid) (mode : ConeMode) (i : Nat) :
    (p.loaded mode).rowRhs i = if i < p.heldRows mode then p.rhs.getD i 0 else 0 := by
  rw [Model.rowRhs, h.getElem?_rows_loaded]
  split
  · exact rhs_heldRow p i
  · rfl

omit [Numeric α] in
theorem Valid.coefficient_loaded (h : p.Valid) (mode : ConeMode) (i j : Nat) :
    (p.loaded mode).coefficient i j =
      if i < p.heldRows mode then (p.heldRow i).coefficient j else 0 := by
  rw [Model.coefficient, h.getElem?_rows_loaded]
  split <;> rfl

omit [Numeric α] in
theorem columnKind?_loaded (p : Problem α) (mode : ConeMode) (j : Nat) :
    (p.loaded mode).columnKind? j = if j < p.variableCount then p.kinds[j]?
      else if j < (p.loaded mode).columnCount then some .continuous else none := by
  have ⟨n, hk, hn⟩ := map_kind_loaded p mode
  have hl := variableCount_le_columnCount p mode
  rw [Model.columnKind?, ← List.getElem?_map, hk, List.getElem?_append, length_kinds,
    List.getElem?_replicate]
  grind

omit [Scalar α] [Numeric α] in
theorem heldRows_eq (hp : p.Valid) (hq : q.Valid) (hs : p.Similar q) :
    p.heldRows mode = q.heldRows mode := by
  cases mode
  case auxiliary => exact hs.rowCount hp hq
  case substituted => exact congrArg Partition.linearRows hs.partition

omit [Numeric α] in
theorem shaped_loaded (hp : p.Valid) (hq : q.Valid) (hs : p.Similar q) :
    (p.loaded mode).Shaped (q.loaded mode) where
  senses := by
    rw [hp.rows_loaded, hq.rows_loaded, List.map_map, List.map_map, heldRows_eq hp hq hs]
    refine List.map_congr_left fun i _ => ?_
    simp [sense, hs.partition]
  bounds := map_bounds_loaded hs mode
  objective := by
    rw [hp.length_objective_loaded, hq.length_objective_loaded, columnCount_loaded hs]

section Similar

variable (hp : p.Valid) (hq : q.Valid) (hnp : p.Numbers) (hnq : q.Numbers) (hs : p.Similar q)
include hp hq hnp hnq hs

theorem alike_loaded (h : ∀ i, p.heldRows mode ≤ i → i < p.rowCount →
      p.rhs.getD i 0 == q.rhs.getD i 0 ∧ ∀ j, p.matrix.entry i j == q.matrix.entry i j) :
    (p.loaded mode).Alike (q.loaded mode) where
  toShaped := shaped_loaded hp hq hs
  cones := (forall₂_cones_loaded hp hq hnp hnq hs).mpr h

theorem agreesAt_loaded (h : p.AgreesAt q x) : (p.loaded mode).AgreesAt (q.loaded mode) x := by
  have hz : (0 : α) == 0 := Numeric.zero_isNumber
  cases x
  case objective j =>
    rw [Model.AgreesAt, objective_getD_loaded, objective_getD_loaded]
    exact h
  case coefficient i j =>
    rw [Model.AgreesAt, hp.coefficient_loaded, hq.coefficient_loaded, heldRows_eq hp hq hs]
    split
    case isFalse => exact hz
    case isTrue =>
      by_cases hj : j < p.variableCount
      case pos =>
        exact Numeric.trans (hp.coefficient_heldRow hnp hj) <|
          Numeric.trans h (Numeric.symm (hq.coefficient_heldRow hnq (hs.columns ▸ hj)))
      case neg => exact hp.coefficient_heldRow_slack hq hnp hnq hs (not_lt.mp hj)
  case rhs i =>
    rw [Model.AgreesAt, hp.rowRhs_loaded, hq.rowRhs_loaded, heldRows_eq hp hq hs]
    split
    · exact h
    · exact hz
  case kind j =>
    rw [AgreesAt] at h
    rw [Model.AgreesAt, columnKind?_loaded, columnKind?_loaded, h, hs.columns,
      columnCount_loaded hs]

section Lossless

variable (h : (p.loaded mode).Agrees (q.loaded mode))
include h

-- An entry stands in a row of the model, or in a cone.
theorem entry_beq_of_loaded (i j : Nat) : p.matrix.entry i j == q.matrix.entry i j := by
  have hz : (0 : α) == 0 := Numeric.zero_isNumber
  have hx := h.agreesAt (.coefficient i j)
  simp only [Model.AgreesAt, hp.coefficient_loaded, hq.coefficient_loaded,
    ← heldRows_eq hp hq hs] at hx
  by_cases hj : j < p.variableCount
  case neg =>
    rw [hp.entry_eq_zero (not_lt.mp hj), hq.entry_eq_zero (hs.columns ▸ not_lt.mp hj)]
    exact hz
  case pos =>
    by_cases hi : i < p.heldRows mode
    case pos =>
      rw [if_pos hi, if_pos hi] at hx
      exact Numeric.trans (Numeric.symm (hp.coefficient_heldRow hnp hj)) <|
        Numeric.trans hx (hq.coefficient_heldRow hnq (hs.columns ▸ hj))
    case neg =>
      by_cases hi' : i < p.rowCount
      case pos =>
        exact ((forall₂_cones_loaded hp hq hnp hnq hs).mp h.cones i (not_lt.mp hi) hi').2 j
      case neg =>
        have hr := hs.rowCount hp hq
        rw [hp.entry_eq_zero_of_rowCount_le (not_lt.mp hi'),
          hq.entry_eq_zero_of_rowCount_le (hr ▸ not_lt.mp hi')]
        exact hz

theorem rhs_beq_of_loaded (i : Nat) : p.rhs.getD i 0 == q.rhs.getD i 0 := by
  have hx := h.agreesAt (.rhs i)
  simp only [Model.AgreesAt, hp.rowRhs_loaded, hq.rowRhs_loaded, ← heldRows_eq hp hq hs] at hx
  by_cases hi : i < p.heldRows mode
  case pos => rwa [if_pos hi, if_pos hi] at hx
  case neg =>
    by_cases hi' : i < p.rowCount
    case pos =>
      exact ((forall₂_cones_loaded hp hq hnp hnq hs).mp h.cones i (not_lt.mp hi) hi').1
    case neg =>
      have hr := hs.rowCount hp hq
      have hlp := hp.rhs
      have hlq := hq.rhs
      rw [List.getD_eq_getElem?_getD, List.getD_eq_getElem?_getD,
        List.getElem?_eq_none (by omega), List.getElem?_eq_none (by omega)]
      exact Numeric.zero_isNumber

end Lossless

-- Nothing of a problem is lost in the model that stands for it.
theorem agrees_loaded_iff : (p.loaded mode).Agrees (q.loaded mode) ↔ ∀ x, p.AgreesAt q x := by
  constructor
  case mpr =>
    intro h
    refine (alike_loaded hp hq hnp hnq hs fun i _ _ => ?_).agrees fun x =>
      agreesAt_loaded hp hq hnp hnq hs (h x)
    exact ⟨h (.rhs i), fun j => h (.coefficient i j)⟩
  case mp =>
    intro h x
    have hx := h.agreesAt x
    cases x
    case objective j =>
      simp only [Model.AgreesAt, objective_getD_loaded] at hx
      exact hx
    case coefficient i j => exact entry_beq_of_loaded hp hq hnp hnq hs h i j
    case rhs i => exact rhs_beq_of_loaded hp hq hnp hnq hs h i
    case kind j =>
      simp only [Model.AgreesAt, columnKind?_loaded, ← hs.columns] at hx
      rw [AgreesAt]
      by_cases hj : j < p.variableCount
      case pos => rwa [if_pos hj, if_pos hj] at hx
      case neg =>
        have hlp := length_kinds (p := p)
        have hlq := length_kinds (p := q)
        have := hs.columns
        rw [List.getElem?_eq_none (by omega), List.getElem?_eq_none (by omega)]

end Similar
end Places
end Problem
end ConicProgram
