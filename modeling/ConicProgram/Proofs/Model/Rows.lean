import ConicProgram.Model.Basic
import ConicProgram.Proofs.OrderedMap
import ConicProgram.Proofs.Sparse.Entries

namespace ConicProgram.Row

variable {α : Type} [Scalar α] {r : Row α} {j k : Nat} {v : α} {es : List (Nat × α)}

theorem coefficient_setCoefficient :
    (r.setCoefficient j v).coefficient k =
      if k = j then if v == 0 then 0 else v else r.coefficient k := by
  unfold setCoefficient coefficient
  by_cases hv : v == 0 <;> by_cases hk : k = j <;>
    simp [hv, hk, OrderedMap.get?_insert, OrderedMap.get?_erase]

@[simp]
theorem sense_setCoefficient : (r.setCoefficient j v).sense = r.sense := by
  unfold setCoefficient
  split <;> rfl

@[simp]
theorem rhs_setCoefficient : (r.setCoefficient j v).rhs = r.rhs := by
  unfold setCoefficient
  split <;> rfl

def addEntries (r : Row α) (es : List (Nat × α)) : Row α :=
  es.foldl (fun r e => r.addCoefficient e.1 e.2) r

def ofEntries (sense : RowSense) (rhs : α) (es : List (Nat × α)) : Row α :=
  addEntries { sense, rhs, coefficients := .empty } es

theorem addEntries_cons {e : Nat × α} :
    r.addEntries (e :: es) = (r.addCoefficient e.1 e.2).addEntries es :=
  rfl

@[simp]
theorem sense_addEntries : (r.addEntries es).sense = r.sense := by
  induction es generalizing r
  case nil => rfl
  case cons e es hi => exact hi

@[simp]
theorem rhs_addEntries : (r.addEntries es).rhs = r.rhs := by
  induction es generalizing r
  case nil => rfl
  case cons e es hi => exact hi

theorem get?_addEntries_of_forall_ne (h : ∀ e ∈ es, e.1 ≠ k) :
    (r.addEntries es).coefficients.get? k = r.coefficients.get? k := by
  induction es generalizing r
  case nil => rfl
  case cons e es hi =>
    rw [addEntries_cons, hi fun f hf => h f (List.mem_cons_of_mem _ hf), addCoefficient,
      OrderedMap.get?_insert, if_neg (h e (List.mem_cons_self ..)).symm]

-- Nothing is added to an entry whose column stands once.
theorem get?_addEntries (hr : ∀ e ∈ es, r.coefficients.get? e.1 = none)
    (hd : (es.map (·.1)).Nodup) : (r.addEntries es).coefficients.get? k =
      ((es.lookup k).map (0 + ·)).or (r.coefficients.get? k) := by
  induction es generalizing r
  case nil => rfl
  case cons e es hi =>
    have ⟨hn, hd⟩ := List.nodup_cons.mp hd
    have hne : ∀ f ∈ es, f.1 ≠ e.1 := fun f hf he => hn (List.mem_map.mpr ⟨f, hf, he⟩)
    have hc : r.coefficient e.1 = 0 := by rw [coefficient, hr e (List.mem_cons_self ..)]; rfl
    rw [addEntries_cons, lookup_cons_eq]
    split
    case isTrue hk =>
      subst hk
      rw [get?_addEntries_of_forall_ne hne, addCoefficient, OrderedMap.get?_insert, if_pos rfl, hc]
      rfl
    case isFalse hk =>
      rw [hi _ hd, addCoefficient, OrderedMap.get?_insert, if_neg hk]
      intro f hf
      rw [addCoefficient, OrderedMap.get?_insert, if_neg (hne f hf)]
      exact hr f (List.mem_cons_of_mem _ hf)

@[simp]
theorem sense_ofEntries {sense : RowSense} {rhs : α} : (ofEntries sense rhs es).sense = sense :=
  sense_addEntries

@[simp]
theorem rhs_ofEntries {sense : RowSense} {rhs : α} : (ofEntries sense rhs es).rhs = rhs :=
  rhs_addEntries

theorem get?_ofEntries {sense : RowSense} {rhs : α} (hd : (es.map (·.1)).Nodup) :
    (ofEntries sense rhs es).coefficients.get? k = (es.lookup k).map (0 + ·) := by
  rw [ofEntries, get?_addEntries (fun _ _ => rfl) hd, OrderedMap.get?_empty, Option.or_none]

theorem mem_ofEntries {sense : RowSense} {rhs : α} (hd : (es.map (·.1)).Nodup) :
    (k, v) ∈ (ofEntries sense rhs es).coefficients.entries ↔ ∃ w, (k, w) ∈ es ∧ 0 + w = v := by
  rw [← OrderedMap.get?_eq_some_iff, get?_ofEntries hd, Option.map_eq_some_iff]
  simp only [lookup_eq_some_iff hd]

end ConicProgram.Row
