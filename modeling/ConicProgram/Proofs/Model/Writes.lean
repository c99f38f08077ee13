import ConicProgram.Proofs.Model.Rows

namespace ConicProgram.Model

variable {α : Type} [Scalar α] {m : Model α} {w : Write α} {ws : List (Write α)}

-- The model with the write carried out, if there is such a place.
def put (m : Model α) : Write α → Model α
  | .objective col v => { m with objective := m.objective.set col v }
  | .coefficient row col v => { m with rows := m.rows.modify row (·.setCoefficient col v) }
  | .rhs row v => { m with rows := m.rows.modify row fun r => { r with rhs := v } }
  | .kind col v => { m with columns := m.columns.modify col fun c => { c with kind := v } }

def Fits (m : Model α) : Write α → Prop
  | .objective col _ => col < m.columnCount ∧ col < m.objective.length
  | .coefficient row col _ => row < m.rowCount ∧ col < m.columnCount
  | .rhs row _ => row < m.rowCount
  | .kind col _ => col < m.columnCount

theorem write_eq_ok (h : m.Fits w) : m.write w = .ok (m.put w) := by
  cases w
  case objective => simp [write, checkColumn, OptimizerError.checkIndex, replaced, put, h.1, h.2,
    Attempt.ofExcept, bind, Except.bind, pure, Except.pure]
  case coefficient => simp [write, checkRow, checkColumn, OptimizerError.checkIndex, put, h.1, h.2,
    Attempt.ofExcept, bind, Except.bind, pure, Except.pure]
  case rhs =>
    have h : _ < m.rowCount := h
    simp [write, checkRow, OptimizerError.checkIndex, put, h, Attempt.ofExcept, bind, Except.bind,
      pure, Except.pure]
  case kind =>
    have h : _ < m.columnCount := h
    simp [write, checkColumn, OptimizerError.checkIndex, put, h, Attempt.ofExcept, bind,
      Except.bind, pure, Except.pure]

@[simp]
theorem rowCount_put : (m.put w).rowCount = m.rowCount := by
  cases w <;> simp [put, rowCount]

@[simp]
theorem columnCount_put : (m.put w).columnCount = m.columnCount := by
  cases w <;> simp [put, columnCount]

@[simp]
theorem length_objective_put : (m.put w).objective.length = m.objective.length := by
  cases w <;> simp [put]

@[simp]
theorem cones_put : (m.put w).cones = m.cones := by
  cases w <;> rfl

-- Which places there are does not change.
@[simp]
theorem fits_put {w' : Write α} : (m.put w).Fits w' ↔ m.Fits w' := by
  cases w' <;> simp [Fits]

theorem fits_foldl_put : (ws.foldl put m).Fits w ↔ m.Fits w := by
  induction ws generalizing m
  case nil => rfl
  case cons v ws hi => rw [List.foldl_cons, hi, fits_put]

theorem writeAll_eq_ok (h : ∀ w ∈ ws, m.Fits w) :
    m.writeAll ws = (.ok (), ws.foldl put m) := by
  induction ws generalizing m
  case nil => rfl
  case cons w ws hi =>
    rw [writeAll, write_eq_ok (h w (List.mem_cons_self ..))]
    exact hi fun v hv => fits_put.mpr (h v (List.mem_cons_of_mem _ hv))

-- Writes that come after others are carried out if all of the others are.
theorem writeAll_append {ws' : List (Write α)} : m.writeAll (ws ++ ws') =
    match m.writeAll ws with
    | (.ok (), n) => n.writeAll ws'
    | (.error e, n) => (.error e, n) := by
  induction ws generalizing m
  case nil => rfl
  case cons w ws hi =>
    rw [List.cons_append, writeAll, writeAll]
    cases m.write w
    case ok => exact hi
    case error => rfl

-- One coefficient is set in each of the rows that stand one behind the other.
theorem getElem?_foldl_put_coefficient (row col count : Nat) (v : α) :
    ∃ rows, ((List.range count).map fun k => .coefficient (row + k) (col + k) v).foldl put m =
        { m with rows } ∧
      ∀ i, rows[i]? = m.rows[i]?.map fun r =>
        if row ≤ i ∧ i < row + count then r.setCoefficient (col + (i - row)) v else r := by
  induction count
  case zero =>
    refine ⟨m.rows, rfl, fun i => ?_⟩
    cases m.rows[i]?
    case none => rfl
    case some r => rw [Option.map_some, if_neg (by omega)]
  case succ count hi =>
    have ⟨rows, hm, hrows⟩ := hi
    refine ⟨_, by rw [List.range_succ, List.map_append, List.foldl_append, hm]; rfl, fun i => ?_⟩
    rw [List.getElem?_modify, hrows]
    cases m.rows[i]?
    case none => rfl
    case some r =>
      simp only [Option.map_some]
      split
      case isTrue h =>
        subst h
        rw [if_neg (by omega), if_pos (by omega), Nat.add_sub_cancel_left]
        rfl
      case isFalse h =>
        simp only [show i < row + (count + 1) ↔ i < row + count ∨ i = row + count by omega]
        grind

end ConicProgram.Model
