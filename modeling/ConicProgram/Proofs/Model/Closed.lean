import ConicProgram.Proofs.Action
import ConicProgram.Proofs.Model.Scope
import ConicProgram.Proofs.Sparse.Format

namespace ConicProgram

variable {α : Type} [Scalar α]

section Rows

variable {r : Row α} {n j : Nat} {v : α}

def Row.Below (n : Nat) (r : Row α) : Prop :=
  ∀ e ∈ r.coefficients.entries, e.1 < n

theorem Row.Below.addCoefficient (h : r.Below n) (hj : j < n) : (r.addCoefficient j v).Below n := by
  intro e he
  rcases OrderedMap.mem_entries_insert.mp he with rfl | ⟨he, _⟩
  · exact hj
  · exact h e he

end Rows

namespace Model

variable {m : Model α}

section Loading

variable {d : LoadData α} {rows : List (Row α)} {j : Nat}
  (hf : Starts.fits d.starts d.columnCount d.rowIndices.length)
  (hv : d.rowIndices.length = d.values.length)

-- What the rows are like once some of the columns have been added.
structure Begun (d : LoadData α) (rows : List (Row α)) : Prop where
  length : rows.length = d.rowCount
  below  : ∀ r ∈ rows, r.Below d.columnCount

include hf hv

theorem meets_addColumnEntries (hj : j < d.columnCount) (h : Begun d rows) :
    (addColumnEntries d rows j).Meets (Begun d) := by
  have ⟨first, stop, hfirst, hstop, hplace⟩ := SparseMatrix.exists_span_of_fits hf hj
  unfold addColumnEntries
  refine (Attempt.meets_ofOption (q := (· = first)) hfirst rfl).bind fun _ hfirst => ?_
  refine (Attempt.meets_ofOption (q := (· = stop)) hstop rfl).bind fun _ hstop => ?_
  subst hfirst hstop
  refine Attempt.meets_foldlM h fun p hp rows h => ?_
  have hp := hplace p hp
  have hi := List.getElem?_eq_getElem hp
  have hx := List.getElem?_eq_getElem (hv ▸ hp)
  refine (Attempt.meets_ofOption (q := fun _ => True) hi trivial).bind fun i _ => ?_
  refine (Attempt.meets_ofExcept (q := fun _ => i < d.rowCount) fun _ =>
    OptimizerError.checkIndex_eq_ok_iff.mp).bind fun _ hi => ?_
  have hi : i < rows.length := h.length.symm ▸ hi
  refine (Attempt.meets_ofOption (q := (· ∈ rows)) (List.getElem?_eq_getElem hi)
    (List.getElem_mem hi)).bind fun r hr => ?_
  refine (Attempt.meets_ofOption (q := fun _ => True) hx trivial).bind fun v _ => ?_
  refine ⟨List.length_set.trans h.length, fun s hs => ?_⟩
  rcases List.mem_or_eq_of_mem_set hs with hs | rfl
  · exact h.below s hs
  · exact (h.below r hr).addCoefficient hj

end Loading

-- The data ends where the last of its columns does.
theorem meets_ofLoadData (d : LoadData α) :
    (ofLoadData d).Meets fun m =>
      m.Closed ∧ ∃ entries, d.starts[m.columnCount]? = some entries := by
  refine Attempt.meets_check fun hr => Attempt.meets_check fun hb => ?_
  refine Attempt.meets_check fun hs => ?_
  simp only [Bool.or_eq_true, Bool.not_eq_true', bne_iff_ne, not_or, Bool.not_eq_false,
    ne_eq, not_not] at hr hb hs
  have hbegun : Begun d (d.senses.zipWith
      (fun sense rhs => { sense, rhs, coefficients := .empty }) d.rhs) := by
    refine ⟨by simp [LoadData.rowCount, hr], fun r hr => ?_⟩
    have ⟨i, hi, hr⟩ := List.mem_iff_getElem.mp hr
    rw [← hr, List.getElem_zipWith]
    exact List.forall_mem_nil _
  have hn : (d.lower.zipWith (fun lower upper => (⟨⟨lower, upper⟩, .continuous⟩ : Column α))
      d.upper).length = d.columnCount := by
    simp [hb.1, hb.2]
  refine (Attempt.meets_foldlM hbegun fun j hj rows h =>
    meets_addColumnEntries hs.1 hs.2 (List.mem_range.mp hj) h).bind fun rows h => ?_
  refine ⟨⟨⟨fun r hr e he => (h.below r hr e he).trans_eq hn.symm, nofun⟩, hn.symm⟩, ?_⟩
  have ⟨entries, he, _⟩ := SparseMatrix.exists_of_fits hs.1 le_rfl
  exact ⟨entries, (congrArg (d.starts[·]?) hn).trans he⟩

section Growing

theorem Closed.addColumns (h : m.Closed) (bounds : List (Bounds α)) :
    (m.addColumns bounds).Closed := by
  have hn : m.columnCount ≤ (m.addColumns bounds).columnCount := by
    simp [Model.addColumns, columnCount]
  refine ⟨⟨fun r hr e he => (h.rows r hr e he).trans_le hn,
    fun c hc e he t ht => (h.cones c hc e he t ht).trans_le hn⟩, ?_⟩
  have ho := h.objective
  simp only [Model.addColumns, columnCount, List.length_append, List.length_take,
    List.length_replicate, List.length_map] at ho ⊢
  omega

theorem meets_newRow {d : RowData α} {i : Nat} {sense : RowSense} {rhs : α}
    (hf : Starts.fits d.starts d.senses.length d.colIndices.length)
    (hv : d.colIndices.length = d.values.length) (hi : i < d.senses.length) :
    (m.newRow d i sense rhs).Meets (Row.Below m.columnCount) := by
  have ⟨first, stop, hfirst, hstop, hplace⟩ := SparseMatrix.exists_span_of_fits hf hi
  unfold newRow
  refine (Attempt.meets_ofOption (q := (· = first)) hfirst rfl).bind fun _ hfirst => ?_
  refine (Attempt.meets_ofOption (q := (· = stop)) hstop rfl).bind fun _ hstop => ?_
  subst hfirst hstop
  refine Attempt.meets_foldlM (List.forall_mem_nil _) fun p hp r hr => ?_
  have hp := hplace p hp
  have hj := List.getElem?_eq_getElem hp
  have hx := List.getElem?_eq_getElem (hv ▸ hp)
  refine (Attempt.meets_ofOption (q := fun _ => True) hj trivial).bind fun j _ => ?_
  refine (Attempt.meets_ofExcept (q := fun _ => j < m.columnCount) fun _ =>
    OptimizerError.checkIndex_eq_ok_iff.mp).bind fun _ hj => ?_
  refine (Attempt.meets_ofOption (q := fun _ => True) hx trivial).bind fun v _ => ?_
  exact hr.addCoefficient hj

theorem Closed.meets_addRows (h : m.Closed) {d : RowData α} (hd : checkRowData d = .ok ()) :
    (m.addRows d).Meets Closed := by
  unfold checkRowData at hd
  split at hd
  case isTrue => cases hd
  case isFalse hn =>
    simp only [not_or, ne_eq, not_not, Bool.not_eq_true', Bool.not_eq_false] at hn
    have ⟨_, hf, hv⟩ := hn
    refine (Attempt.meets_mapM (r := Row.Below m.columnCount) fun x hx => ?_).bind
      fun rows hrows => ?_
    · have hi := List.snd_lt_of_mem_zipIdx hx
      rw [List.length_zip] at hi
      exact meets_newRow hf hv (by omega)
    · refine ⟨⟨fun r hr => ?_, h.cones⟩, h.objective⟩
      rcases List.mem_append.mp hr with hr | hr
      · exact h.rows r hr
      · exact hrows r hr

omit [Scalar α] in
theorem Closed.addCone (h : m.Closed) {c : ConeConstraint α} {m' : Model α}
    (hm : m.addCone c = .ok m') : m'.Closed := by
  have ⟨hc, hm⟩ := addCone_eq_ok_iff.mp hm
  subst hm
  refine ⟨⟨h.rows, fun k hk => ?_⟩, h.objective⟩
  rcases List.mem_append.mp hk with hk | hk
  · exact h.cones k hk
  · cases List.mem_singleton.mp hk
    exact hc

end Growing

section Writing

variable {w : Write α} {ws : List (Write α)}

theorem Closed.meets_write (h : m.Closed) : (m.write w).Meets Closed := by
  have hcol (j : Nat) : (Attempt.ofExcept (m.checkColumn j)).Meets fun _ => j < m.columnCount :=
    Attempt.meets_ofExcept fun _ => OptimizerError.checkIndex_eq_ok_iff.mp
  have hrow (i : Nat) : (Attempt.ofExcept (m.checkRow i)).Meets fun _ => i < m.rowCount :=
    Attempt.meets_ofExcept fun _ => OptimizerError.checkIndex_eq_ok_iff.mp
  cases w
  case objective j v =>
    refine (hcol j).bind fun _ hj => ?_
    have hf : m.Fits (.objective j v) := ⟨hj, h.objective.symm ▸ hj⟩
    rw [replaced, if_pos hf.2]
    exact h.put hf
  case coefficient i j v =>
    refine (hrow i).bind fun _ hi => (hcol j).bind fun _ hj => ?_
    exact h.put (w := .coefficient i j v) ⟨hi, hj⟩
  case rhs i v => exact (hrow i).bind fun _ hi => h.put (w := .rhs i v) hi
  case kind j v => exact (hcol j).bind fun _ hj => h.put (w := .kind j v) hj

theorem Closed.meets_writeAll (h : m.Closed) :
    (m.writeAll ws).1 ≠ .error .fault ∧ (m.writeAll ws).2.Closed := by
  induction ws generalizing m
  case nil => exact ⟨nofun, h⟩
  case cons w ws hi =>
    have hw := h.meets_write (w := w)
    rw [writeAll]
    cases he : m.write w <;> rw [he] at hw
    case ok m' => exact hi hw
    case error e => exact ⟨fun hf => by cases hf; exact hw, h⟩

end Writing
end Model
end ConicProgram
