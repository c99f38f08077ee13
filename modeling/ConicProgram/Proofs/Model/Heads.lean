import ConicProgram.Proofs.Model.Assembly
import ConicProgram.Proofs.Scalar.Unital

namespace ConicProgram

variable {α : Type} [Scalar α]

def Row.slackRow (r : Row α) : SlackRow α where
  terms := r.coefficients.entries.map fun (j, v) => (j, r.sense.direction * v)
  rhs := r.sense.direction * r.rhs

theorem Row.entryAt_slackRow (r : Row α) (j : Nat) :
    entryAt r.slackRow.terms j = ((r.coefficients.get? j).map (r.sense.direction * ·)).getD 0 := by
  rw [entryAt, slackRow, lookup_map, lookup_entries]

theorem RowSense.direction_mul [Unital α] {sense : RowSense} (h : sense ≠ .atLeast) (x : α) :
    sense.direction * x = x := by
  cases sense
  case atLeast => exact absurd rfl h
  all_goals exact Unital.one_mul x

namespace Model

variable {m : Model α} {bounds : List (Bounds α)} {a : Assembled α} {i k : Nat} {r : Row α}

theorem slackRows_eq : m.slackRows bounds = m.rows.map (·.slackRow) ++
    ((boundBlocks bounds).flatMap (·.rows) ++ (m.cones.map (·.block)).flatMap (·.rows)) := by
  have hr : (m.rows.map (·.block)).flatMap (·.rows) = m.rows.map (·.slackRow) := by
    rw [List.flatMap_map]
    exact List.flatMap_pure_eq_map ..
  rw [slackRows, blocks, List.flatMap_append, List.flatMap_append, hr, List.append_assoc]
  rfl

theorem getElem?_slackRows (h : m.rows[i]? = some r) :
    (m.slackRows bounds)[i]? = some r.slackRow := by
  have hi := (List.getElem?_eq_some_iff.mp h).1
  rw [slackRows_eq, List.getElem?_append_left (by simpa using hi), List.getElem?_map, h]
  rfl

-- The first rows of the system are those of the model, none of them negated.
def Heads (m : Model α) (a : Assembled α) (k : Nat) : Prop :=
  ∀ i < k, ∃ r, m.rows[i]? = some r ∧ (∀ j, a.matrix.entry i j = r.coefficient j) ∧
    a.rhs[i]? = some r.rhs

-- The first rows of the model do not bound their values from below.
def Upright (m : Model α) (k : Nat) : Prop :=
  ∀ i < k, ∃ r, m.rows[i]? = some r ∧ r.sense ≠ .atLeast

theorem Represents.heads [Unital α] (h : m.Represents bounds a) (hk : m.Upright k) :
    m.Heads a k := by
  intro i hi
  have ⟨r, hr, hs⟩ := hk i hi
  have hd := RowSense.direction_mul (α := α) hs
  refine ⟨r, hr, fun j => ?_, ?_⟩
  · rw [h.entries, getElem?_slackRows hr, Option.map_some, Option.getD_some, r.entryAt_slackRow]
    simp only [hd, Option.map_id_fun', id, Row.coefficient]
  · rw [h.rhs, List.getElem?_map, getElem?_slackRows hr, Option.map_some, Row.slackRow, hd]

omit [Scalar α] in
theorem Upright.of_senses {n : Model α} (h : m.Upright k)
    (hs : n.rows.map (·.sense) = m.rows.map (·.sense)) : n.Upright k := by
  intro i hi
  have ⟨r, hr, hd⟩ := h i hi
  have hn : (n.rows.map (·.sense))[i]? = some r.sense := by rw [hs, List.getElem?_map, hr]; rfl
  rw [List.getElem?_map] at hn
  have ⟨r', hr', he⟩ := Option.map_eq_some_iff.mp hn
  exact ⟨r', hr', he ▸ hd⟩

-- The multipliers of upright rows are those that the engine has returned.
theorem Upright.take_rowDuals (h : m.Upright k) (z : List α) :
    (m.rowDuals z).take k = z.take k := by
  refine List.ext_getElem? fun i => ?_
  rw [List.getElem?_take, List.getElem?_take]
  split
  case isFalse => rfl
  case isTrue hi =>
    have ⟨r, hr, hs⟩ := h i hi
    rw [rowDuals, List.getElem?_zipWith, hr]
    cases z[i]?
    case none => rfl
    case some x => cases hr : r.sense <;> simp_all

end Model
end ConicProgram
