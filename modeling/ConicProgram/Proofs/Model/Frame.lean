import ConicProgram.Proofs.Model.Agreement

namespace ConicProgram.Model

variable {α : Type} [Scalar α] {m n k : Model α} {w : Write α} {ws : List (Write α)}
  {named : Place → Prop} {x : Place}

-- The same value stands at the place in both models, or there is none in either.
def SameAt (m n : Model α) : Place → Prop
  | .objective col => m.objective[col]? = n.objective[col]?
  | .coefficient row col =>
    m.rows[row]?.map (·.coefficients.get? col) = n.rows[row]?.map (·.coefficients.get? col)
  | .rhs row => m.rows[row]?.map (·.rhs) = n.rows[row]?.map (·.rhs)
  | .kind col => m.columnKind? col = n.columnKind? col

-- The models are identical but at the named places.
structure SameBut (named : Place → Prop) (m n : Model α) : Prop extends m.Shaped n where
  cones  : m.cones = n.cones
  places : ∀ x, ¬named x → m.SameAt n x
  rows   : ∀ i, ¬named (.rhs i) → (∀ j, ¬named (.coefficient i j)) → m.rows[i]? = n.rows[i]?

omit [Scalar α] in
theorem SameAt.trans (h₁ : m.SameAt n x) (h₂ : n.SameAt k x) : m.SameAt k x := by
  cases x <;> exact Eq.trans h₁ h₂

omit [Scalar α] in
theorem SameBut.refl (m : Model α) : m.SameBut named m where
  senses := rfl
  bounds := rfl
  objective := rfl
  cones := rfl
  places x _ := by cases x <;> exact rfl
  rows _ _ _ := rfl

omit [Scalar α] in
theorem SameBut.trans (h₁ : m.SameBut named n) (h₂ : n.SameBut named k) : m.SameBut named k where
  toShaped := h₁.toShaped.trans h₂.toShaped
  cones := h₁.cones.trans h₂.cones
  places x hx := (h₁.places x hx).trans (h₂.places x hx)
  rows i hi hj := (h₁.rows i hi hj).trans (h₂.rows i hi hj)

theorem shaped_put_self : m.Shaped (m.put w) := by
  have ⟨hs, hb, ho⟩ := (shaped_put (m := m) (w := w)).mpr ⟨rfl, rfl, rfl⟩
  exact ⟨hs.symm, hb.symm, ho.symm⟩

theorem sameAt_put_of_ne (hx : w.place ≠ x) : m.SameAt (m.put w) x := by
  cases w <;> cases x
  case objective.objective j _ j' =>
    have hj : j ≠ j' := fun h => hx (congrArg _ h)
    simp [SameAt, put, hj]
  case coefficient.coefficient i j v i' j' =>
    refine (Lists.map_getElem?_modify fun hi r => ?_).symm
    have hj : j' ≠ j := fun hj => hx (hi ▸ hj ▸ rfl)
    by_cases hv : v == 0 <;>
      simp [Row.setCoefficient, hv, OrderedMap.get?_insert, OrderedMap.get?_erase, hj]
  case coefficient.rhs => exact (Lists.map_getElem?_modify fun _ _ => Row.rhs_setCoefficient).symm
  case rhs.coefficient i v _ _ =>
    exact (Lists.map_getElem?_modify (f := fun r : Row α => { r with rhs := v })
      fun _ _ => rfl).symm
  case rhs.rhs => exact (Lists.map_getElem?_modify fun hi _ => absurd (congrArg _ hi) hx).symm
  case kind.kind => exact (Lists.map_getElem?_modify fun hj _ => absurd (congrArg _ hj) hx).symm
  all_goals exact rfl

theorem getElem?_rows_put_of_ne {i : Nat} (hr : w.place ≠ .rhs i)
    (hc : ∀ j, w.place ≠ .coefficient i j) : (m.put w).rows[i]? = m.rows[i]? := by
  cases w
  case coefficient k j v =>
    have hk : k ≠ i := fun h => hc j (h ▸ rfl)
    simp [put, hk]
  case rhs k v =>
    have hk : k ≠ i := fun h => hr (h ▸ rfl)
    simp [put, hk]
  all_goals rfl

theorem sameBut_put (hw : named w.place) : m.SameBut named (m.put w) where
  toShaped := shaped_put_self
  cones := cones_put.symm
  places _ hx := sameAt_put_of_ne fun h => hx (h ▸ hw)
  rows _ hr hc :=
    (getElem?_rows_put_of_ne (fun h => hr (h ▸ hw)) fun j h => hc j (h ▸ hw)).symm

theorem sameBut_foldl_put (hw : ∀ w ∈ ws, named w.place) :
    m.SameBut named (ws.foldl put m) := by
  induction ws generalizing m
  case nil => exact .refl m
  case cons w ws hi =>
    have ⟨hw, hws⟩ := List.forall_mem_cons.mp hw
    exact (sameBut_put hw).trans (hi hws)

end ConicProgram.Model
