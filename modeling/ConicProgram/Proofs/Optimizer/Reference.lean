import ConicProgram.Optimizer.Reference
import ConicProgram.Proofs.Action
import ConicProgram.Proofs.Model.Writes

namespace ConicProgram.ReferenceOptimizer

variable {α ω β : Type} {s : ReferenceOptimizer α} {m m' : Model α}

-- The optimizer with another model in it, and no result yet.
def holding (s : ReferenceOptimizer α) (m : Model α) : ReferenceOptimizer α :=
  { s with model := some m, result := none }

theorem yields_editing {edit : Model α → Attempt (OptimizerError α) β × Model α} {b : β}
    (h : s.model = some m) (he : edit m = (.ok b, m')) :
    (editing edit : Call α ω β).Yields s b (s.holding m') := by
  rcases s with ⟨_, _, _, _⟩
  cases h
  refine .bind (Action.yields_modifyState _) (.bind Action.yields_state ?_)
  simp only [forget, he]
  exact .bind (Action.yields_modifyState _) Action.yields_pure

theorem yields_replacing {edit : Model α → Attempt (OptimizerError α) (β × Model α)} {b : β}
    (h : s.model = some m) (he : edit m = .ok (b, m')) :
    (replacing edit : Call α ω β).Yields s b (s.holding m') :=
  yields_editing h (by rw [he])

theorem yields_addCone {k : ConeConstraint α} (h : s.model = some m) (hm : m.addCone k = .ok m') :
    (addCone k : Call α ω Nat).Yields s m.cones.length (s.holding m') :=
  yields_replacing h (by rw [hm]; rfl)

variable [Scalar α]

theorem yields_addColumns (bounds : List (Bounds α)) (h : s.model = some m) :
    (addColumns bounds : Call α ω Span).Yields s
      ⟨m.columnCount, (m.addColumns bounds).columnCount⟩ (s.holding (m.addColumns bounds)) :=
  yields_replacing h rfl

theorem yields_addRows {d : RowData α} (h : s.model = some m)
    (hd : Model.checkRowData d = .ok ()) (hm : m.addRows d = .ok m') :
    (addRows d : Call α ω Span).Yields s ⟨m.rowCount, m'.rowCount⟩ (s.holding m') := by
  rw [addRows, hd]
  exact .bind Action.yields_pure (yields_replacing h (by rw [hm]; rfl))

omit [Scalar α] in
theorem yields_setObjective {v : List α} (h : s.model = some m) (h₁ : v.length = m.columnCount)
    (h₂ : v.length = m.objective.length) :
    (setObjective v : Call α ω Unit).Yields s () (s.holding { m with objective := v }) :=
  yields_replacing h (by rw [if_neg (not_not.mpr h₁), if_neg (not_not.mpr h₂)])

theorem yields_load {d : LoadData α} {entries : Nat} (hm : Model.ofLoadData d = .ok m)
    (he : d.starts[m.columnCount]? = some entries) :
    (load d : Call α ω Unit).Yields s () (s.holding m) :=
  .bind (Action.yields_ofAttempt hm) <| .bind (Action.yields_ofOption he) <|
    .bind (Action.yields_record _) (Action.yields_modifyState _)

section Writing

variable {ws ws' : List (Model.Write α)} {a b : Call α ω Unit}

-- The call carries out the writes one after the other, up to the first that fails, and does nothing
-- else to the model.
def Call.Writes (a : Call α ω Unit) (ws : List (Model.Write α)) : Prop :=
  ∀ s m, s.model = some m → ∃ s', s'.model = some (m.writeAll ws).2 ∧
    ∀ outside log, a.perform ⟨s, outside, log⟩ = ((m.writeAll ws).1, ⟨s', outside, log⟩)

theorem writes_editing (ws : List (Model.Write α)) :
    (editing fun m => m.writeAll ws : Call α ω Unit).Writes ws := by
  intro s m h
  refine ⟨s.holding (m.writeAll ws).2, rfl, fun outside log => ?_⟩
  rcases s with ⟨_, _, _, _⟩
  cases h
  simp only [editing, forget, holding, Action.perform_bind, Action.perform_modifyState,
    Action.perform_state, Action.perform_ofAttempt]

theorem writes_pure : (pure () : Call α ω Unit).Writes [] :=
  fun s _ h => ⟨s, h, fun _ _ => rfl⟩

theorem Call.Writes.append (ha : a.Writes ws) (hb : b.Writes ws') :
    (a >>= fun _ => b : Call α ω Unit).Writes (ws ++ ws') := by
  intro s m h
  have ⟨s', hs', ha⟩ := ha s m h
  rw [Model.writeAll_append]
  cases hm : m.writeAll ws
  case mk r n =>
    rw [hm] at hs' ha
    cases r
    case error e => exact ⟨s', hs', fun outside log => Action.perform_bind_of_error (ha _ _)⟩
    case ok =>
      have ⟨s'', hs'', hb⟩ := hb s' n hs'
      refine ⟨s'', hs'', fun outside log => ?_⟩
      rw [Action.perform_bind_of_ok (ha outside log), hb]

theorem Call.Writes.yields (ha : a.Writes ws) (h : s.model = some m) (hw : ∀ w ∈ ws, m.Fits w) :
    ∃ s', a.Yields s () s' ∧ s'.model = some (ws.foldl Model.put m) := by
  have ⟨s', hs', ha⟩ := ha s m h
  rw [Model.writeAll_eq_ok hw] at hs' ha
  exact ⟨s', fun outside log => ⟨log, ha outside log⟩, hs'⟩

theorem yields_writing (h : s.model = some m) (hw : ∀ w ∈ ws, m.Fits w) :
    (editing fun m => m.writeAll ws : Call α ω Unit).Yields s ()
      (s.holding (ws.foldl Model.put m)) :=
  yields_editing h (Model.writeAll_eq_ok hw)

-- A group of writes is given place by place, and is carried out as one list.
section Groups

variable {δ : Type} (xs : List δ)

theorem changeObjective_map (col : δ → Nat) (value : δ → α) :
    (changeObjective (xs.map col) (xs.map value) : Call α ω Unit) =
      editing fun m => m.writeAll (xs.map fun x => .objective (col x) (value x)) := by
  simp [changeObjective, checkLengths, List.zipWith_map, List.zipWith_self]

theorem changeRhs_map (row : δ → Nat) (value : δ → α) :
    (changeRhs (xs.map row) (xs.map value) : Call α ω Unit) =
      editing fun m => m.writeAll (xs.map fun x => .rhs (row x) (value x)) := by
  simp [changeRhs, checkLengths, List.zipWith_map, List.zipWith_self]

theorem changeKinds_map (col : δ → Nat) (kind : δ → ColumnKind) :
    (changeKinds (xs.map col) (xs.map kind) : Call α ω Unit) =
      editing fun m => m.writeAll (xs.map fun x => .kind (col x) (kind x)) := by
  simp [changeKinds, checkLengths, List.zipWith_map, List.zipWith_self]

theorem changeCoefficients_map (row col : δ → Nat) (value : δ → α) :
    (changeCoefficients (xs.map row) (xs.map col) (xs.map value) : Call α ω Unit) =
      editing fun m => m.writeAll (xs.map fun x => .coefficient (row x) (col x) (value x)) := by
  simp [changeCoefficients, checkLengths, List.zip_map', List.zipWith_map, List.zipWith_self]

theorem yields_changeKinds (col : δ → Nat) (kind : δ → ColumnKind) (h : s.model = some m)
    (hw : ∀ x ∈ xs, m.Fits (.kind (col x) (kind x))) :
    (changeKinds (xs.map col) (xs.map kind) : Call α ω Unit).Yields s ()
      (s.holding ((xs.map fun x => .kind (col x) (kind x)).foldl Model.put m)) := by
  rw [changeKinds_map]
  exact yields_writing h (by simpa using hw)

theorem yields_changeCoefficients (row col : δ → Nat) (value : δ → α) (h : s.model = some m)
    (hw : ∀ x ∈ xs, m.Fits (.coefficient (row x) (col x) (value x))) :
    (changeCoefficients (xs.map row) (xs.map col) (xs.map value) : Call α ω Unit).Yields s ()
      (s.holding ((xs.map fun x => .coefficient (row x) (col x) (value x)).foldl Model.put m)) := by
  rw [changeCoefficients_map]
  exact yields_writing h (by simpa using hw)

end Groups
end Writing
end ConicProgram.ReferenceOptimizer
