import ConicProgram.Proofs.Loading.Agreement
import ConicProgram.Proofs.Sparse.Change
import ConicProgram.Warm.Plan

namespace ConicProgram

section Between

theorem ValueChange.mem_between {α : Type} [BEq α] {old new : List α} {c : ValueChange α} :
    c ∈ between old new ↔
      old[c.index]? = some c.old ∧ new[c.index]? = some c.new ∧ c.old != c.new := by
  rw [between, Lists.mem_filterMap_zipIdx_zip]
  constructor
  case mp =>
    rintro ⟨i, x, y, hx, hy, h⟩
    have ⟨hd, h⟩ := Option.ite_none_right_eq_some.mp h
    cases h
    exact ⟨hx, hy, hd⟩
  case mpr =>
    intro ⟨hx, hy, hd⟩
    exact ⟨c.index, c.old, c.new, hx, hy, if_pos hd⟩

theorem KindChange.mem_between {old new : List ColumnKind} {c : KindChange} :
    c ∈ between old new ↔
      old[c.column]? = some c.old ∧ new[c.column]? = some c.new ∧ c.old ≠ c.new := by
  rw [between, Lists.mem_filterMap_zipIdx_zip]
  constructor
  case mp =>
    rintro ⟨i, x, y, hx, hy, h⟩
    have ⟨hd, h⟩ := Option.ite_none_right_eq_some.mp h
    cases h
    exact ⟨hx, hy, hd⟩
  case mpr =>
    intro ⟨hx, hy, hd⟩
    exact ⟨c.column, c.old, c.new, hx, hy, if_pos hd⟩

theorem ValueChange.pairwise_between {α : Type} [BEq α] (old new : List α) :
    (between old new).Pairwise (·.index < ·.index) := by
  refine Lists.pairwise_filterMap_zipIdx fun x i c h => ?_
  cases (Option.ite_none_right_eq_some.mp h).2
  rfl

theorem KindChange.pairwise_between (old new : List ColumnKind) :
    (between old new).Pairwise (·.column < ·.column) := by
  refine Lists.pairwise_filterMap_zipIdx fun x i c h => ?_
  cases (Option.ite_none_right_eq_some.mp h).2
  rfl

end Between

namespace Plan

variable {α ω : Type}

def writes (p : Plan α) : List (Model.Write α) :=
  (p.objective.map fun c => .objective c.index c.new) ++
    (p.matrix.map fun c => .coefficient c.row c.col c.new) ++
    (p.rhs.map fun c => .rhs c.index c.new) ++
    (p.kinds.map fun c => .kind c.column c.new)

-- A plan whose groups are in order writes no place twice.
theorem nodup_places {p : Plan α} (ho : p.objective.Pairwise (·.index < ·.index))
    (hm : p.matrix.Pairwise EntryChange.Before) (hr : p.rhs.Pairwise (·.index < ·.index))
    (hk : p.kinds.Pairwise (·.column < ·.column)) : (p.writes.map (·.place)).Nodup := by
  have hobj : (p.objective.map fun c => Model.Place.objective c.index).Nodup :=
    List.pairwise_map.mpr (ho.imp fun h he => absurd (Model.Place.objective.inj he) (by omega))
  have hmat : (p.matrix.map fun c => Model.Place.coefficient c.row c.col).Nodup := by
    refine List.pairwise_map.mpr (hm.imp fun h he => h.ne ?_)
    have ⟨hr, hc⟩ := Model.Place.coefficient.inj he
    rw [hr, hc]
  have hrhs : (p.rhs.map fun c => Model.Place.rhs c.index).Nodup :=
    List.pairwise_map.mpr (hr.imp fun h he => absurd (Model.Place.rhs.inj he) (by omega))
  have hkind : (p.kinds.map fun c => Model.Place.kind c.column).Nodup :=
    List.pairwise_map.mpr (hk.imp fun h he => absurd (Model.Place.kind.inj he) (by omega))
  have hplaces : p.writes.map (·.place) =
      p.objective.map (fun c => .objective c.index) ++
        (p.matrix.map (fun c => .coefficient c.row c.col) ++
          (p.rhs.map (fun c => .rhs c.index) ++ p.kinds.map (fun c => .kind c.column))) := by
    simp only [writes, List.map_append, List.map_map, List.append_assoc]
    rfl
  rw [hplaces]
  -- Places of two groups are of two sorts.
  refine hobj.append (hmat.append (hrhs.append hkind ?_) ?_) ?_
  all_goals simp [List.Disjoint]

section Apply

open ReferenceOptimizer

variable [Scalar α] {s : ReferenceOptimizer α} {m : Model α}

-- A group without writes is not called at all.
theorem writes_group {δ : Type} {xs : List δ} {w : δ → Model.Write α} {ws : List (Model.Write α)}
    {call rest : Call α ω Unit} (hc : call.Writes (xs.map w)) (hr : rest.Writes ws) :
    (if xs.isEmpty then rest else call >>= fun _ => rest : Call α ω Unit).Writes
      (xs.map w ++ ws) := by
  cases xs
  case nil => exact hr
  case cons => exact hc.append hr

-- However far a plan is carried out, its writes are made in their order.
theorem writes_apply (p : Plan α) (engine : Engine α ω) :
    Call.Writes (p.apply (operations engine)) p.writes := by
  have ho := changeObjective_map (ω := ω) p.objective (·.index) (·.new) ▸ writes_editing _
  have hm := changeCoefficients_map (ω := ω) p.matrix (·.row) (·.col) (·.new) ▸ writes_editing _
  have hr := changeRhs_map (ω := ω) p.rhs (·.index) (·.new) ▸ writes_editing _
  have hk := changeKinds_map (α := α) (ω := ω) p.kinds (·.column) (·.new) ▸ writes_editing _
  rw [writes, List.append_assoc, List.append_assoc]
  refine writes_group ho (writes_group hm (writes_group hr ?_))
  cases h : p.kinds
  case nil => exact writes_pure
  case cons =>
    rw [h] at hk
    exact hk

theorem yields_apply (p : Plan α) (engine : Engine α ω) (h : s.model = some m)
    (hw : ∀ w ∈ p.writes, m.Fits w) :
    ∃ s', (p.apply (operations engine)).Yields s () s' ∧
      s'.model = some (p.writes.foldl Model.put m) :=
  (p.writes_apply engine).yields h hw

end Apply
end Plan
end ConicProgram
