import ConicProgram.Proofs.Model.Writes
import ConicProgram.Proofs.Scalar.Numeric

namespace ConicProgram

variable {α : Type} [Scalar α]

-- Agreement as numbers: a zero may have either sign, and may be stored or not.
structure Row.Agrees (r s : Row α) : Prop where
  sense        : r.sense = s.sense
  rhs          : r.rhs == s.rhs
  coefficients : ∀ j, r.coefficient j == s.coefficient j

-- What the terms of the column add up to.
def AffineExpr.coefficient (e : AffineExpr α) (col : Nat) : α :=
  match (e.terms.filter (·.1 = col)).map (·.2) with
  | [] => 0
  | v :: vs => vs.foldl (· + ·) v

theorem AffineExpr.coefficient_eq {e : AffineExpr α} {j : Nat} (h : (e.terms.map (·.1)).Nodup) :
    e.coefficient j = entryAt e.terms j := by
  rw [coefficient, filter_key h, entryAt]
  cases e.terms.lookup j <;> rfl

structure AffineExpr.Agrees (e f : AffineExpr α) : Prop where
  constant     : e.constant == f.constant
  coefficients : ∀ j, e.coefficient j == f.coefficient j

structure ConeConstraint.Agrees (c d : ConeConstraint α) : Prop where
  name : c.name = d.name
  apex : c.apex.Agrees d.apex
  legs : List.Forall₂ AffineExpr.Agrees c.legs d.legs

structure Model.Agrees (m n : Model α) : Prop where
  rows      : List.Forall₂ Row.Agrees m.rows n.rows
  columns   : m.columns = n.columns
  objective : List.Forall₂ (fun x y => x == y) m.objective n.objective
  cones     : List.Forall₂ ConeConstraint.Agrees m.cones n.cones

section Equivalence

variable [Numeric α]

theorem Row.Agrees.symm {r s : Row α} (h : r.Agrees s) : s.Agrees r where
  sense := h.sense.symm
  rhs := Numeric.symm h.rhs
  coefficients j := Numeric.symm (h.coefficients j)

theorem Row.Agrees.trans {r s t : Row α} (h₁ : r.Agrees s) (h₂ : s.Agrees t) : r.Agrees t where
  sense := h₁.sense.trans h₂.sense
  rhs := Numeric.trans h₁.rhs h₂.rhs
  coefficients j := Numeric.trans (h₁.coefficients j) (h₂.coefficients j)

theorem AffineExpr.Agrees.symm {e f : AffineExpr α} (h : e.Agrees f) : f.Agrees e where
  constant := Numeric.symm h.constant
  coefficients j := Numeric.symm (h.coefficients j)

theorem AffineExpr.Agrees.trans {e f g : AffineExpr α} (h₁ : e.Agrees f) (h₂ : f.Agrees g) :
    e.Agrees g where
  constant := Numeric.trans h₁.constant h₂.constant
  coefficients j := Numeric.trans (h₁.coefficients j) (h₂.coefficients j)

theorem ConeConstraint.Agrees.symm {c d : ConeConstraint α} (h : c.Agrees d) : d.Agrees c where
  name := h.name.symm
  apex := h.apex.symm
  legs := Lists.forall₂_symm (fun _ _ => AffineExpr.Agrees.symm) h.legs

theorem ConeConstraint.Agrees.trans {b c d : ConeConstraint α} (h₁ : b.Agrees c)
    (h₂ : c.Agrees d) : b.Agrees d where
  name := h₁.name.trans h₂.name
  apex := h₁.apex.trans h₂.apex
  legs := Lists.forall₂_trans (R := AffineExpr.Agrees) (fun _ _ _ => .trans) h₁.legs h₂.legs

end Equivalence

namespace Model

theorem Agrees.symm [Numeric α] {m n : Model α} (h : m.Agrees n) : n.Agrees m where
  rows := Lists.forall₂_symm (fun _ _ => Row.Agrees.symm) h.rows
  columns := h.columns.symm
  objective := Lists.forall₂_symm (fun _ _ => Numeric.symm) h.objective
  cones := Lists.forall₂_symm (fun _ _ => ConeConstraint.Agrees.symm) h.cones

theorem Agrees.trans [Numeric α] {m n k : Model α} (h₁ : m.Agrees n) (h₂ : n.Agrees k) :
    m.Agrees k where
  rows := Lists.forall₂_trans (R := Row.Agrees) (fun _ _ _ => .trans) h₁.rows h₂.rows
  columns := h₁.columns.trans h₂.columns
  objective := Lists.forall₂_trans (R := fun x y => x == y) (fun _ _ _ => Numeric.trans)
    h₁.objective h₂.objective
  cones := Lists.forall₂_trans (R := ConeConstraint.Agrees) (fun _ _ _ => .trans) h₁.cones h₂.cones

inductive Place where
  | objective (col : Nat)
  | coefficient (row col : Nat)
  | rhs (row : Nat)
  | kind (col : Nat)

def Write.place : Write α → Place
  | .objective col _ => .objective col
  | .coefficient row col _ => .coefficient row col
  | .rhs row _ => .rhs row
  | .kind col _ => .kind col

def HasPlace (m : Model α) : Place → Prop
  | .objective col => col < m.columnCount ∧ col < m.objective.length
  | .coefficient row col => row < m.rowCount ∧ col < m.columnCount
  | .rhs row => row < m.rowCount
  | .kind col => col < m.columnCount

omit [Scalar α] in
theorem fits_iff_hasPlace {m : Model α} {w : Write α} : m.Fits w ↔ m.HasPlace w.place := by
  cases w <;> rfl

-- The values at the places. Where there is no row there are zeros.
def coefficient (m : Model α) (row col : Nat) : α :=
  (m.rows[row]?.map (·.coefficient col)).getD 0

def rowRhs (m : Model α) (row : Nat) : α :=
  (m.rows[row]?.map (·.rhs)).getD 0

def columnKind? (m : Model α) (col : Nat) : Option ColumnKind :=
  m.columns[col]?.map (·.kind)

def AgreesAt (m n : Model α) : Place → Prop
  | .objective col => m.objective.getD col 0 == n.objective.getD col 0
  | .coefficient row col => m.coefficient row col == n.coefficient row col
  | .rhs row => m.rowRhs row == n.rowRhs row
  | .kind col => m.columnKind? col = n.columnKind? col

structure Shaped (m n : Model α) : Prop where
  senses    : m.rows.map (·.sense) = n.rows.map (·.sense)
  bounds    : m.columns.map (·.bounds) = n.columns.map (·.bounds)
  objective : m.objective.length = n.objective.length

-- The models do not differ in anything that a write cannot change.
structure Alike (m n : Model α) : Prop extends m.Shaped n where
  cones : List.Forall₂ ConeConstraint.Agrees m.cones n.cones

-- The write puts the value of the model at its place.
def Write.Toward (n : Model α) : Write α → Prop
  | .objective col v => v == n.objective.getD col 0
  | .coefficient row col v => v == n.coefficient row col
  | .rhs row v => v == n.rowRhs row
  | .kind col k => some k = n.columnKind? col

section Places

variable [Numeric α] {m n k : Model α} {w : Write α} {ws : List (Write α)} {x : Place}

omit [Scalar α] [Numeric α] in
theorem Shaped.trans (h₁ : m.Shaped n) (h₂ : n.Shaped k) : m.Shaped k :=
  ⟨h₁.senses.trans h₂.senses, h₁.bounds.trans h₂.bounds, h₁.objective.trans h₂.objective⟩

omit [Scalar α] [Numeric α] in
theorem Shaped.fits_iff (h : m.Shaped n) : m.Fits w ↔ n.Fits w := by
  have hr : m.rowCount = n.rowCount := by simpa [rowCount] using congrArg List.length h.senses
  have hc : m.columnCount = n.columnCount := by
    simpa [columnCount] using congrArg List.length h.bounds
  cases w <;> simp only [Fits, hr, hc, h.objective]

theorem Alike.trans (h₁ : m.Alike n) (h₂ : n.Alike k) : m.Alike k where
  toShaped := h₁.toShaped.trans h₂.toShaped
  cones := Lists.forall₂_trans (R := ConeConstraint.Agrees) (fun _ _ _ => .trans) h₁.cones h₂.cones

theorem AgreesAt.trans (h₁ : m.AgreesAt n x) (h₂ : n.AgreesAt k x) : m.AgreesAt k x := by
  cases x
  case kind => exact Eq.trans h₁ h₂
  all_goals exact Numeric.trans h₁ h₂

theorem Agrees.agreesAt (h : m.Agrees n) (x : Place) : m.AgreesAt n x := by
  have hz : (0 : α) == 0 := Numeric.zero_isNumber
  cases x
  case objective j =>
    rw [AgreesAt, List.getD_eq_getElem?_getD, List.getD_eq_getElem?_getD]
    rcases Lists.getElem?_of_forall₂ h.objective j with ⟨hm, hn⟩ | ⟨x, y, hm, hn, hxy⟩ <;>
      rw [hm, hn]
    · exact hz
    · exact hxy
  case coefficient i j =>
    rw [AgreesAt, coefficient, coefficient]
    rcases Lists.getElem?_of_forall₂ h.rows i with ⟨hm, hn⟩ | ⟨r, s, hm, hn, h⟩ <;> rw [hm, hn]
    · exact hz
    · exact h.coefficients j
  case rhs i =>
    rw [AgreesAt, rowRhs, rowRhs]
    rcases Lists.getElem?_of_forall₂ h.rows i with ⟨hm, hn⟩ | ⟨r, s, hm, hn, h⟩ <;> rw [hm, hn]
    · exact hz
    · exact h.rhs
  case kind j =>
    rw [AgreesAt, columnKind?, columnKind?, h.columns]

omit [Numeric α] in
theorem Agrees.alike (h : m.Agrees n) : m.Alike n where
  senses := by
    rw [← List.forall₂_eq_eq_eq, List.forall₂_map_left_iff, List.forall₂_map_right_iff]
    exact h.rows.imp fun _ _ h => h.sense
  bounds := by rw [h.columns]
  objective := h.objective.length_eq
  cones := h.cones

omit [Numeric α] in
theorem Alike.agrees (h : m.Alike n) (hx : ∀ x, m.AgreesAt n x) : m.Agrees n where
  rows := by
    have hs := h.senses
    rw [← List.forall₂_eq_eq_eq, List.forall₂_map_left_iff, List.forall₂_map_right_iff,
      Lists.forall₂_iff_getElem?] at hs
    refine Lists.forall₂_iff_getElem?.mpr ⟨hs.1, fun i r s hr hs' => ?_⟩
    have hc (j : Nat) := hx (.coefficient i j)
    have hv := hx (.rhs i)
    simp only [AgreesAt, coefficient, rowRhs, hr, hs', Option.map_some, Option.getD_some] at hc hv
    exact ⟨hs.2 i r s hr hs', hv, hc⟩
  columns := by
    have hb := h.bounds
    rw [← List.forall₂_eq_eq_eq, List.forall₂_map_left_iff, List.forall₂_map_right_iff,
      Lists.forall₂_iff_getElem?] at hb
    rw [← List.forall₂_eq_eq_eq, Lists.forall₂_iff_getElem?]
    refine ⟨hb.1, fun j c d hc hd => ?_⟩
    have hk := hx (.kind j)
    simp only [AgreesAt, columnKind?, hc, hd, Option.map_some, Option.some.injEq] at hk
    have hb := hb.2 j c d hc hd
    cases c
    cases d
    simp_all
  objective := by
    refine Lists.forall₂_iff_getElem?.mpr ⟨h.objective, fun j x y hm hn => ?_⟩
    have ho := hx (.objective j)
    simp only [AgreesAt, List.getD_eq_getElem?_getD, hm, hn, Option.getD_some] at ho
    exact ho
  cones := h.cones

theorem agreesAt_put_self (hf : m.Fits w) (ht : w.Toward n) : (m.put w).AgreesAt n w.place := by
  cases w
  case objective j v =>
    have hj : j < m.objective.length := hf.2
    have h : (m.put (.objective j v)).objective.getD j 0 = v := by
      simp [put, List.getD_eq_getElem?_getD, hj]
    rw [Write.place, AgreesAt, h]
    exact ht
  case coefficient i j v =>
    have hi : i < m.rows.length := hf.1
    have h : (m.put (.coefficient i j v)).coefficient i j = if v == 0 then 0 else v := by
      simp [put, coefficient, List.getElem?_eq_getElem hi, Row.coefficient_setCoefficient]
    rw [Write.place, AgreesAt, h]
    split
    case isTrue hz => exact Numeric.trans (Numeric.symm hz) ht
    case isFalse => exact ht
  case rhs i v =>
    have hi : i < m.rows.length := hf
    have h : (m.put (.rhs i v)).rowRhs i = v := by
      simp [put, rowRhs, List.getElem?_eq_getElem hi]
    rw [Write.place, AgreesAt, h]
    exact ht
  case kind j k =>
    have hj : j < m.columns.length := hf
    have h : (m.put (.kind j k)).columnKind? j = some k := by
      simp [put, columnKind?, List.getElem?_eq_getElem hj]
    exact h.trans ht

section Elsewhere

omit [Numeric α]

-- Where a write does not go all is as it was.
theorem objective_put_of_ne {j : Nat} (h : w.place ≠ .objective j) :
    (m.put w).objective.getD j 0 = m.objective.getD j 0 := by
  cases w
  case objective j' v =>
    have hj : j' ≠ j := fun hj => h (hj ▸ rfl)
    simp [put, hj]
  all_goals rfl

theorem coefficient_put_of_ne {i j : Nat} (h : w.place ≠ .coefficient i j) :
    (m.put w).coefficient i j = m.coefficient i j := by
  cases w
  case coefficient i' j' v =>
    have hr : i' = i → ∀ r : Row α, (r.setCoefficient j' v).coefficient j = r.coefficient j := by
      intro hi r
      have hj : j ≠ j' := fun hj => h (hi ▸ hj ▸ rfl)
      rw [Row.coefficient_setCoefficient, if_neg hj]
    rw [coefficient, coefficient, put, Lists.map_getElem?_modify hr]
  case rhs i' v =>
    have hr : i' = i → ∀ r : Row α, { r with rhs := v }.coefficient j = r.coefficient j :=
      fun _ _ => rfl
    rw [coefficient, coefficient, put, Lists.map_getElem?_modify hr]
  all_goals rfl

theorem rowRhs_put_of_ne {i : Nat} (h : w.place ≠ .rhs i) : (m.put w).rowRhs i = m.rowRhs i := by
  cases w
  case coefficient i' j v =>
    have hr : i' = i → ∀ r : Row α, (r.setCoefficient j v).rhs = r.rhs :=
      fun _ _ => Row.rhs_setCoefficient
    rw [rowRhs, rowRhs, put, Lists.map_getElem?_modify hr]
  case rhs i' v =>
    have hr : i' = i → ∀ r : Row α, v = r.rhs := fun hi => absurd (hi ▸ rfl) h
    rw [rowRhs, rowRhs, put, Lists.map_getElem?_modify hr]
  all_goals rfl

theorem columnKind?_put_of_ne {j : Nat} (h : w.place ≠ .kind j) :
    (m.put w).columnKind? j = m.columnKind? j := by
  cases w
  case kind j' k =>
    have hc : j' = j → ∀ c : Column α, k = c.kind := fun hj => absurd (hj ▸ rfl) h
    rw [columnKind?, columnKind?, put, Lists.map_getElem?_modify hc]
  all_goals rfl

theorem agreesAt_put_of_ne (hx : w.place ≠ x) : (m.put w).AgreesAt n x ↔ m.AgreesAt n x := by
  cases x
  case objective => rw [AgreesAt, AgreesAt, objective_put_of_ne hx]
  case coefficient => rw [AgreesAt, AgreesAt, coefficient_put_of_ne hx]
  case rhs => rw [AgreesAt, AgreesAt, rowRhs_put_of_ne hx]
  case kind => rw [AgreesAt, AgreesAt, columnKind?_put_of_ne hx]

end Elsewhere

omit [Numeric α] in
theorem shaped_put : (m.put w).Shaped n ↔ m.Shaped n := by
  have hs : (m.put w).rows.map (·.sense) = m.rows.map (·.sense) := by
    cases w
    case coefficient => exact Lists.map_modify_eq (fun _ => Row.sense_setCoefficient) _ _
    case rhs => exact Lists.map_modify_eq (g := fun r : Row α => r.sense) (fun r => by rfl) _ _
    all_goals rfl
  have hb : (m.put w).columns.map (·.bounds) = m.columns.map (·.bounds) := by
    cases w
    case kind => exact Lists.map_modify_eq (g := fun c : Column α => c.bounds) (fun c => by rfl) _ _
    all_goals rfl
  have ho : (m.put w).objective.length = m.objective.length := length_objective_put
  constructor
  case mp => exact fun ⟨h₁, h₂, h₃⟩ => ⟨hs ▸ h₁, hb ▸ h₂, ho ▸ h₃⟩
  case mpr => exact fun ⟨h₁, h₂, h₃⟩ => ⟨hs.trans h₁, hb.trans h₂, ho.trans h₃⟩

omit [Numeric α] in
theorem shaped_foldl_put : (ws.foldl Model.put m).Shaped n ↔ m.Shaped n := by
  induction ws generalizing m
  case nil => rfl
  case cons w ws hi => rw [List.foldl_cons, hi, shaped_put]

omit [Numeric α] in
theorem cones_foldl_put : (ws.foldl Model.put m).cones = m.cones := by
  induction ws generalizing m
  case nil => rfl
  case cons w ws hi => rw [List.foldl_cons, hi, cones_put]

omit [Numeric α] in
theorem alike_foldl_put : (ws.foldl Model.put m).Alike n ↔ m.Alike n := by
  have hc : (ws.foldl Model.put m).cones = m.cones := cones_foldl_put
  constructor
  case mp => exact fun h => ⟨shaped_foldl_put.mp h.toShaped, hc ▸ h.cones⟩
  case mpr => exact fun h => ⟨shaped_foldl_put.mpr h.toShaped, hc.symm ▸ h.cones⟩

-- A place has the right value from the last write to it on, or has had it from the beginning.
theorem agreesAt_foldl_put (hf : ∀ w ∈ ws, m.Fits w) (ht : ∀ w ∈ ws, w.place = x → w.Toward n)
    (hx : (∀ w ∈ ws, w.place ≠ x) → m.AgreesAt n x) : (ws.foldl Model.put m).AgreesAt n x := by
  induction ws generalizing m
  case nil => exact hx nofun
  case cons w ws hi =>
    refine hi (fun v hv => fits_put.mpr (hf v (List.mem_cons_of_mem _ hv)))
      (fun v hv => ht v (List.mem_cons_of_mem _ hv)) fun hn => ?_
    by_cases hwx : w.place = x
    case pos =>
      have hw := ht w (List.mem_cons_self ..) hwx
      exact hwx ▸ agreesAt_put_self (hf w (List.mem_cons_self ..)) hw
    case neg =>
      refine (agreesAt_put_of_ne hwx).mpr (hx fun v hv => ?_)
      rcases List.mem_cons.mp hv with rfl | hv
      · exact hwx
      · exact hn v hv

theorem agrees_foldl_put (hl : m.Alike n) (hf : ∀ w ∈ ws, m.Fits w) (ht : ∀ w ∈ ws, w.Toward n)
    (hx : ∀ x, (∀ w ∈ ws, w.place ≠ x) → m.AgreesAt n x) : (ws.foldl put m).Agrees n :=
  (alike_foldl_put.mpr hl).agrees fun x => agreesAt_foldl_put hf (fun w hw _ => ht w hw) (hx x)

end Places
end Model
end ConicProgram
