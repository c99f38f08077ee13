import ConicProgram.OrderedMap

namespace ConicProgram.OrderedMap

variable {κ ν : Type} [Ord κ] [Std.LawfulEqOrd κ]

section Entries

variable {k : κ} {v : ν} {es : List (κ × ν)} {x y : κ × ν}

theorem ne_of_compare_eq_lt {a b : κ} (h : compare a b = .lt) : a ≠ b := by
  rintro rfl
  simp [Std.compare_self] at h

theorem eq_of_mem (h : es.Pairwise fun a b => compare a.1 b.1 = .lt) (hx : x ∈ es) (hy : y ∈ es)
    (hk : x.1 = y.1) : x = y := by
  induction es
  case nil => cases hx
  case cons e es hi =>
    have ⟨he, hes⟩ := List.pairwise_cons.mp h
    rcases List.mem_cons.mp hx with rfl | hx' <;> rcases List.mem_cons.mp hy with rfl | hy'
    · rfl
    · exact absurd hk (ne_of_compare_eq_lt (he y hy'))
    · exact absurd hk.symm (ne_of_compare_eq_lt (he x hx'))
    · exact hi hes hx' hy'

theorem mem_put [Std.TransOrd κ] (h : es.Pairwise fun a b => compare a.1 b.1 = .lt) :
    x ∈ put k v es ↔ x = (k, v) ∨ x ∈ es ∧ x.1 ≠ k := by
  induction es
  case nil => simp [put]
  case cons e es hi =>
    obtain ⟨he, hes⟩ := List.pairwise_cons.mp h
    rw [put]
    split
    case h_1 hk =>
      have hne : ∀ y ∈ e :: es, y.1 ≠ k := by
        intro y hy
        rcases List.mem_cons.mp hy with rfl | hy
        · exact (ne_of_compare_eq_lt hk).symm
        · exact (ne_of_compare_eq_lt (Std.TransCmp.lt_trans hk (he y hy))).symm
      rw [List.mem_cons]
      exact or_congr_right ⟨fun hx => ⟨hx, hne x hx⟩, And.left⟩
    case h_2 hk =>
      cases Std.compare_eq_iff_eq.mp hk
      have hne : ∀ y ∈ es, y.1 ≠ e.1 := fun y hy => (ne_of_compare_eq_lt (he y hy)).symm
      rw [List.mem_cons, List.mem_cons]
      refine or_congr_right ⟨fun hx => ⟨.inr hx, hne x hx⟩, ?_⟩
      rintro ⟨rfl | hx, hk⟩
      · exact absurd rfl hk
      · exact hx
    case h_3 hk =>
      have hne : e.1 ≠ k := ne_of_compare_eq_lt (Std.OrientedCmp.gt_iff_lt.mp hk)
      rw [List.mem_cons, hi hes, List.mem_cons]
      constructor
      · rintro (rfl | rfl | ⟨hx, hk⟩)
        · exact .inr ⟨.inl rfl, hne⟩
        · exact .inl rfl
        · exact .inr ⟨.inr hx, hk⟩
      · rintro (rfl | ⟨rfl | hx, hk⟩)
        · exact .inr (.inl rfl)
        · exact .inl rfl
        · exact .inr (.inr ⟨hx, hk⟩)

end Entries

variable {m : OrderedMap κ ν} {k k' : κ} {v v' : ν}

theorem get?_eq_some_iff : m.get? k = some v ↔ (k, v) ∈ m.entries := by
  unfold get?
  rw [Option.map_eq_some_iff]
  constructor
  case mp =>
    rintro ⟨e, he, rfl⟩
    have hk := List.find?_some he
    rw [beq_iff_eq, Std.compare_eq_iff_eq] at hk
    exact hk ▸ List.mem_of_find?_eq_some he
  case mpr =>
    intro hm
    cases hf : m.entries.find? fun e => compare k e.1 == .eq
    case none =>
      have := List.find?_eq_none.mp hf _ hm
      simp [Std.compare_self] at this
    case some e =>
      have hk := List.find?_some hf
      rw [beq_iff_eq, Std.compare_eq_iff_eq] at hk
      have he := eq_of_mem m.increasing (List.mem_of_find?_eq_some hf) hm hk.symm
      exact ⟨e, rfl, by rw [he]⟩

theorem mem_entries_insert [Std.TransOrd κ] {x : κ × ν} :
    x ∈ (m.insert k v).entries ↔ x = (k, v) ∨ x ∈ m.entries ∧ x.1 ≠ k :=
  mem_put m.increasing

theorem mem_entries_erase {x : κ × ν} : x ∈ (m.erase k).entries ↔ x ∈ m.entries ∧ x.1 ≠ k := by
  simp [erase, ne_comm]

theorem get?_insert [Std.TransOrd κ] [DecidableEq κ] :
    (m.insert k v).get? k' = if k' = k then some v else m.get? k' := by
  refine Option.ext fun w => ?_
  rw [get?_eq_some_iff, mem_entries_insert]
  split
  case isTrue h => simp [h, eq_comm]
  case isFalse h => simp [h, get?_eq_some_iff]

theorem get?_erase [DecidableEq κ] :
    (m.erase k).get? k' = if k' = k then none else m.get? k' := by
  refine Option.ext fun w => ?_
  rw [get?_eq_some_iff, mem_entries_erase]
  split
  case isTrue h => simp [h]
  case isFalse h => simp [h, get?_eq_some_iff]

omit [Std.LawfulEqOrd κ] in
@[simp]
theorem get?_empty : (empty : OrderedMap κ ν).get? k = none :=
  rfl

omit [Std.LawfulEqOrd κ] in
theorem put_of_forall_lt [Std.OrientedOrd κ] {es : List (κ × ν)}
    (h : ∀ e ∈ es, compare e.1 k = .lt) : put k v es = es ++ [(k, v)] := by
  induction es
  case nil => rfl
  case cons e es hi =>
    have ⟨he, hes⟩ := List.forall_mem_cons.mp h
    rw [put, Std.OrientedCmp.gt_of_lt he]
    exact congrArg (e :: ·) (hi hes)

omit [Std.LawfulEqOrd κ] in
-- Entries in the order of their keys are put one behind the other.
theorem entries_foldl_insert [Std.TransOrd κ] {es : List (κ × ν)}
    (h : (m.entries ++ es).Pairwise fun a b => compare a.1 b.1 = .lt) :
    (es.foldl (fun m e => m.insert e.1 e.2) m).entries = m.entries ++ es := by
  induction es generalizing m
  case nil => exact (List.append_nil _).symm
  case cons e es hi =>
    have hlt : ∀ x ∈ m.entries, compare x.1 e.1 = .lt := fun x hx =>
      (List.pairwise_append.mp h).2.2 x hx e (List.mem_cons_self ..)
    have he : (m.insert e.1 e.2).entries = m.entries ++ [e] := put_of_forall_lt hlt
    rw [List.append_cons, ← he] at h
    rw [List.foldl_cons, hi h, he, List.append_assoc, List.singleton_append]

omit [Std.LawfulEqOrd κ] in
theorem ofList_entries [Std.TransOrd κ] (m : OrderedMap κ ν) : ofList m.entries = m := by
  have h : ((empty : OrderedMap κ ν).entries ++ m.entries).Pairwise
      fun a b => compare a.1 b.1 = .lt := m.increasing
  exact ext (entries_foldl_insert h)

theorem nodup_keys : (m.entries.map (·.1)).Nodup :=
  List.pairwise_map.mpr <| m.increasing.imp ne_of_compare_eq_lt

end ConicProgram.OrderedMap
