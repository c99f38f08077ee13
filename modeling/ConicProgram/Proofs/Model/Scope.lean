import ConicProgram.Proofs.Model.Writes

namespace ConicProgram

variable {α : Type} [Scalar α]

omit [Scalar α] in
theorem OptimizerError.checkIndex_eq_ok_iff {axis : Axis} {i n : Nat} {u : Unit} :
    (checkIndex axis i n : Except (OptimizerError α) Unit) = .ok u ↔ i < n := by
  unfold checkIndex
  split <;> simp_all

namespace Model

-- No row and no constraint names a column that is not there.
structure Inside (m : Model α) : Prop where
  rows  : ∀ r ∈ m.rows, ∀ e ∈ r.coefficients.entries, e.1 < m.columnCount
  cones : ∀ c ∈ m.cones, ∀ e ∈ c.expressions, ∀ t ∈ e.terms, t.1 < m.columnCount

structure Scoped (m : Model α) : Prop extends m.Inside where
  terms : ∀ c ∈ m.cones, ∀ e ∈ c.expressions, (e.terms.map (·.1)).Nodup

structure Closed (m : Model α) : Prop extends m.Inside where
  objective : m.objective.length = m.columnCount

variable {m : Model α} {w : Write α} {ws : List (Write α)}

theorem mem_entries_setCoefficient {r : Row α} {j : Nat} {v : α} {e : Nat × α}
    (h : e ∈ (r.setCoefficient j v).coefficients.entries) :
    e = (j, v) ∨ e ∈ r.coefficients.entries := by
  unfold Row.setCoefficient at h
  split at h
  case isTrue => exact .inr (OrderedMap.mem_entries_erase.mp h).1
  case isFalse => exact (OrderedMap.mem_entries_insert.mp h).imp_right And.left

theorem Inside.put (h : m.Inside) (hf : m.Fits w) : (m.put w).Inside where
  rows := by
    have hrows : ∀ r ∈ (m.put w).rows, ∀ e ∈ r.coefficients.entries, e.1 < m.columnCount := by
      cases w
      case coefficient i j v =>
        intro r hr e he
        rcases Lists.mem_modify hr with hr | ⟨s, hs, rfl⟩
        · exact h.rows r hr e he
        · rcases mem_entries_setCoefficient he with rfl | he
          · exact hf.2
          · exact h.rows s hs e he
      case rhs i v =>
        intro r hr e he
        rcases Lists.mem_modify hr with hr | ⟨s, hs, rfl⟩
        · exact h.rows r hr e he
        · exact h.rows s hs e he
      case objective => exact h.rows
      case kind => exact h.rows
    simpa only [columnCount_put] using hrows
  cones := by simpa only [columnCount_put, cones_put] using h.cones

theorem Scoped.put (h : m.Scoped) (hf : m.Fits w) : (m.put w).Scoped where
  toInside := h.toInside.put hf
  terms := by simpa only [cones_put] using h.terms

theorem Closed.put (h : m.Closed) (hf : m.Fits w) : (m.put w).Closed where
  toInside := h.toInside.put hf
  objective := by simpa only [columnCount_put, length_objective_put] using h.objective

theorem Scoped.foldl_put (h : m.Scoped) (hf : ∀ w ∈ ws, m.Fits w) :
    (ws.foldl Model.put m).Scoped := by
  induction ws generalizing m
  case nil => exact h
  case cons w ws hi =>
    exact hi (h.put (hf w (List.mem_cons_self ..))) fun v hv =>
      fits_put.mpr (hf v (List.mem_cons_of_mem _ hv))

section Cones

omit [Scalar α]

theorem forM_lastColumn?_eq_ok_iff {e : AffineExpr α} :
    e.lastColumn?.forM m.checkColumn = .ok () ↔ ∀ t ∈ e.terms, t.1 < m.columnCount := by
  have hm (t : Nat × α) (ht : t ∈ e.terms) : t.1 ∈ e.terms.map (·.1) := List.mem_map_of_mem ht
  cases hj : e.lastColumn?
  case none =>
    have hn := List.max?_eq_none_iff.mp hj
    exact ⟨fun _ t ht => (nomatch hn ▸ hm t ht), fun _ => rfl⟩
  case some j =>
    have ⟨hjm, hle⟩ := List.max?_eq_some_iff.mp hj
    refine OptimizerError.checkIndex_eq_ok_iff.trans ⟨fun h t ht => ?_, fun h => ?_⟩
    · exact (hle t.1 (hm t ht)).trans_lt h
    · have ⟨t, ht, hj⟩ := List.mem_map.mp hjm
      exact hj ▸ h t ht

theorem addCone_eq_ok_iff {c : ConeConstraint α} {m' : Model α} :
    m.addCone c = .ok m' ↔ (∀ e ∈ c.expressions, ∀ t ∈ e.terms, t.1 < m.columnCount) ∧
      m' = { m with cones := m.cones ++ [c] } := by
  have hc : c.expressions.forM (fun e => e.lastColumn?.forM m.checkColumn) = .ok () ↔ _ :=
    Lists.forM_eq_ok_iff.trans (forall₂_congr fun _ _ => forM_lastColumn?_eq_ok_iff)
  rw [← hc, addCone]
  cases c.expressions.forM fun e => e.lastColumn?.forM m.checkColumn
  case error => exact ⟨nofun, fun h => (nomatch h.1)⟩
  case ok => exact ⟨fun h => ⟨rfl, (Except.ok.inj h).symm⟩, fun h => congrArg Except.ok h.2.symm⟩

end Cones
end Model
end ConicProgram
