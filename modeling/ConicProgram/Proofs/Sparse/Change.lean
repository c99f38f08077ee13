import ConicProgram.Proofs.Scalar.Numeric
import ConicProgram.Proofs.Sparse.Entries
import ConicProgram.Sparse.Change

namespace ConicProgram

variable {α : Type} [Scalar α] {rows row col : Nat} {o n : α} {c : EntryChange α}

namespace EntryChange

-- The change is one from the old to the new value at its row, where these differ.
def FoundIn (col : Nat) (new old : Nat → α) (c : EntryChange α) : Prop :=
  c.col = col ∧ c.old = old c.row ∧ c.new = new c.row ∧ c.new != c.old

theorem mem_note : c ∈ note row col o n ↔ c = ⟨row, col, o, n⟩ ∧ n != o := by
  unfold note
  split <;> simp_all

theorem entryAt_cons_eq {e : Nat × α} {es : List (Nat × α)} :
    entryAt (e :: es) = fun k => if k = e.1 then e.2 else entryAt es k :=
  funext fun _ => entryAt_cons

theorem entryAt_eq_of_absent {es : List (Nat × α)} (h : entryAt es row = 0) :
    entryAt es = fun k => if k = row then 0 else entryAt es k := by
  funext k
  split
  case isTrue hk => rw [hk, h]
  case isFalse => rfl

-- The order of the changes: by column, and by row within a column.
def Before (c d : EntryChange α) : Prop :=
  c.col < d.col ∨ c.col = d.col ∧ c.row < d.row

omit [Scalar α] in
theorem Before.ne {c d : EntryChange α} (h : c.Before d) : (c.row, c.col) ≠ (d.row, d.col) := by
  intro he
  have ⟨hr, hc⟩ := Prod.mk.inj he
  rcases h with h | ⟨_, h⟩ <;> omega

theorem pairwise_note_append {cs : List (EntryChange α)} (h : cs.Pairwise Before)
    (hc : ∀ c ∈ cs, c.col = col ∧ row < c.row) : (note row col o n ++ cs).Pairwise Before := by
  unfold note
  split
  case isTrue => exact List.pairwise_cons.mpr ⟨fun c hm => .inr ⟨(hc c hm).1.symm, (hc c hm).2⟩, h⟩
  case isFalse => exact h

variable [Numeric α]

theorem zero_bne_zero : ((0 : α) != 0) = false :=
  congrArg (! ·) Numeric.zero_isNumber

-- A place that holds nothing in what is left is taken out of it by a note.
theorem mem_note_append {new old : Nat → α} {cs : List (EntryChange α)}
    (h : ∀ c, c ∈ cs ↔ c.FoundIn col new old) (hn : new row = 0) (ho : old row = 0) :
    c ∈ note row col o n ++ cs ↔ c.FoundIn col (fun k => if k = row then n else new k)
      (fun k => if k = row then o else old k) := by
  rw [List.mem_append, mem_note, h]
  rcases c with ⟨r, j, w, v⟩
  by_cases hr : r = row
  case pos =>
    subst hr
    have hz : ¬FoundIn col new old ⟨r, j, w, v⟩ := by
      rintro ⟨_, hw, hv, hd⟩
      simp_all [zero_bne_zero]
    rw [or_iff_left hz]
    simp only [FoundIn, EntryChange.mk.injEq, true_and, if_true]
    exact ⟨fun ⟨⟨hj, hw, hv⟩, hd⟩ => ⟨hj, hw, hv, hw ▸ hv ▸ hd⟩,
      fun ⟨hj, hw, hv, hd⟩ => ⟨⟨hj, hw, hv⟩, hw ▸ hv ▸ hd⟩⟩
  case neg => simp [FoundIn, hr]

-- The lists are merged by row: the smaller row of the two heads is absent from all that is left.
theorem mem_ofColumn {new old : List (Nat × α)} (hn : Increasing new) (ho : Increasing old) :
    c ∈ ofColumn col new old ↔ c.FoundIn col (entryAt new) (entryAt old) := by
  induction new, old using ofColumn.induct generalizing c
  case case1 =>
    rw [ofColumn, iff_false_left (by simp)]
    rintro ⟨_, ho, hn, hd⟩
    rw [ho, hn] at hd
    simp [entryAt, zero_bne_zero] at hd
  case case2 r v new hi =>
    have h := entryAt_of_forall_ne fun e he => Nat.ne_of_gt (hn.head_lt he)
    rw [ofColumn, mem_note_append (fun _ => hi hn.tail ho) h rfl, entryAt_cons_eq,
      ← entryAt_eq_of_absent rfl]
  case case3 s w old hi =>
    have h := entryAt_of_forall_ne fun e he => Nat.ne_of_gt (ho.head_lt he)
    rw [ofColumn, mem_note_append (fun _ => hi hn ho.tail) rfl h, entryAt_cons_eq,
      ← entryAt_eq_of_absent rfl]
  case case4 r v new s w old hrs hi =>
    have hrs' : r < s := Nat.compare_eq_lt.mp hrs
    have h₁ := entryAt_of_forall_ne fun e he => Nat.ne_of_gt (hn.head_lt he)
    have h₂ : entryAt ((s, w) :: old) r = 0 := ho.entryAt_of_lt (by simpa using hrs')
    rw [ofColumn, hrs, mem_note_append (fun _ => hi hn.tail ho) h₁ h₂,
      entryAt_cons_eq (e := (r, v)), ← entryAt_eq_of_absent h₂]
  case case5 r v new s w old hrs hi =>
    have hrs' : s < r := Nat.compare_eq_gt.mp hrs
    have h₁ := entryAt_of_forall_ne fun e he => Nat.ne_of_gt (ho.head_lt he)
    have h₂ : entryAt ((r, v) :: new) s = 0 := hn.entryAt_of_lt (by simpa using hrs')
    rw [ofColumn, hrs, mem_note_append (fun _ => hi hn ho.tail) h₂ h₁,
      entryAt_cons_eq (e := (s, w)), ← entryAt_eq_of_absent h₂]
  case case6 r v new s w old hrs hi =>
    have hrs' : r = s := Nat.compare_eq_eq.mp hrs
    subst hrs'
    have h₁ := entryAt_of_forall_ne fun e he => Nat.ne_of_gt (hn.head_lt he)
    have h₂ := entryAt_of_forall_ne fun e he => Nat.ne_of_gt (ho.head_lt he)
    rw [ofColumn, hrs, mem_note_append (fun _ => hi hn.tail ho.tail) h₁ h₂, entryAt_cons_eq,
      entryAt_cons_eq]

-- No change is found up to a row if neither column has an entry there.
theorem FoundIn.lt {new old : Nat → α} (h : c.FoundIn col new old)
    (hn : ∀ k ≤ row, new k = 0) (ho : ∀ k ≤ row, old k = 0) : row < c.row := by
  have ⟨_, hv, hw, hd⟩ := h
  by_contra hle
  rw [hv, hw, hn _ (not_lt.mp hle), ho _ (not_lt.mp hle), zero_bne_zero] at hd
  cases hd

-- Columns that lie behind a row have all their changes behind it.
theorem lt_of_mem_ofColumn {new old : List (Nat × α)} (hn : Increasing new) (ho : Increasing old)
    (hnl : ∀ e ∈ new, row < e.1) (hol : ∀ e ∈ old, row < e.1) :
    ∀ c ∈ ofColumn col new old, c.col = col ∧ row < c.row := by
  intro c hc
  have hf := (mem_ofColumn hn ho).mp hc
  exact ⟨hf.1, hf.lt
    (fun _ hk => entryAt_of_forall_ne fun e he => Nat.ne_of_gt (hk.trans_lt (hnl e he)))
    fun _ hk => entryAt_of_forall_ne fun e he => Nat.ne_of_gt (hk.trans_lt (hol e he))⟩

theorem pairwise_ofColumn {new old : List (Nat × α)} (hn : Increasing new) (ho : Increasing old) :
    (ofColumn col new old).Pairwise Before := by
  induction new, old using ofColumn.induct
  case case1 =>
    rw [ofColumn]
    exact .nil
  case case2 r v new hi =>
    rw [ofColumn]
    exact pairwise_note_append (hi hn.tail ho)
      (lt_of_mem_ofColumn hn.tail ho (fun _ => hn.head_lt) nofun)
  case case3 s w old hi =>
    rw [ofColumn]
    exact pairwise_note_append (hi hn ho.tail)
      (lt_of_mem_ofColumn hn ho.tail nofun fun _ => ho.head_lt)
  case case4 r v new s w old hrs hi =>
    have hlt := ho.lt_of_lt_head (Nat.compare_eq_lt.mp hrs)
    rw [ofColumn, hrs]
    exact pairwise_note_append (hi hn.tail ho)
      (lt_of_mem_ofColumn hn.tail ho (fun _ => hn.head_lt) hlt)
  case case5 r v new s w old hrs hi =>
    have hlt := hn.lt_of_lt_head (Nat.compare_eq_gt.mp hrs)
    rw [ofColumn, hrs]
    exact pairwise_note_append (hi hn ho.tail)
      (lt_of_mem_ofColumn hn ho.tail hlt fun _ => ho.head_lt)
  case case6 r v new s w old hrs hi =>
    cases Nat.compare_eq_eq.mp hrs
    rw [ofColumn, hrs]
    exact pairwise_note_append (hi hn.tail ho.tail)
      (lt_of_mem_ofColumn hn.tail ho.tail (fun _ => hn.head_lt) fun _ => ho.head_lt)

end EntryChange

namespace SparseMatrix

variable {cs ds : List (List (Nat × α))}

theorem changesFrom_ofColumns (h : cs.length = ds.length) :
    (ofColumns rows cs).changesFrom (ofColumns rows ds) = .ok ((List.range cs.length).flatMap
      fun j => EntryChange.ofColumn j (cs.getD j []) (ds.getD j [])) := by
  have hm : (List.range cs.length).mapM (fun j => do
      return EntryChange.ofColumn j (← (ofColumns rows cs).column? j)
        (← (ofColumns rows ds).column? j)) =
      some ((List.range cs.length).map fun j =>
        EntryChange.ofColumn j (cs.getD j []) (ds.getD j [])) := by
    refine Lists.mapM_eq_some_of_forall fun j hj => ?_
    have hj := List.mem_range.mp hj
    have hd : j < ds.length := h ▸ hj
    simp [column?_ofColumns (List.getElem?_eq_getElem hj),
      column?_ofColumns (List.getElem?_eq_getElem hd), hj, hd]
  simp only [changesFrom, size, rows_ofColumns, cols_ofColumns, h, ne_eq, not_true_eq_false,
    if_false, columnIndices?_ofColumns, Option.bind_eq_bind, Option.bind_some]
  simp only [Option.bind_eq_bind] at hm
  rw [← h, hm]
  rfl

-- A change is found where the entries differ, and nowhere else.
theorem exists_changesFrom [Numeric α] (hc : Columns.Fit rows cs) (hd : Columns.Fit rows ds)
    (h : cs.length = ds.length) :
    ∃ changes, (ofColumns rows cs).changesFrom (ofColumns rows ds) = .ok changes ∧
      ∀ c, c ∈ changes ↔ c.old = (ofColumns rows ds).entry c.row c.col ∧
        c.new = (ofColumns rows cs).entry c.row c.col ∧ c.new != c.old := by
  refine ⟨_, changesFrom_ofColumns h, fun c => ?_⟩
  have hm : ∀ j, c ∈ EntryChange.ofColumn j _ _ ↔ _ := fun j =>
    EntryChange.mem_ofColumn (hc.increasing_getD j) (hd.increasing_getD j)
  simp only [List.mem_flatMap, List.mem_range, hm, entry_ofColumns]
  constructor
  case mp =>
    rintro ⟨_, _, rfl, h⟩
    exact h
  case mpr =>
    intro hv
    refine ⟨c.col, ?_, rfl, hv⟩
    -- Beyond the last column there is nothing to differ.
    by_contra hj
    simp only [List.getD_eq_getElem?_getD, List.getElem?_eq_none (not_lt.mp hj),
      List.getElem?_eq_none (h ▸ not_lt.mp hj)] at hv
    have ⟨ho, hn, hv⟩ := hv
    rw [ho, hn] at hv
    exact absurd hv (by simp [entryAt, EntryChange.zero_bne_zero])

theorem pairwise_changesFrom [Numeric α] {changes : List (EntryChange α)}
    (hc : Columns.Fit rows cs) (hd : Columns.Fit rows ds) (h : cs.length = ds.length)
    (hch : (ofColumns rows cs).changesFrom (ofColumns rows ds) = .ok changes) :
    changes.Pairwise EntryChange.Before := by
  rw [changesFrom_ofColumns h] at hch
  cases hch
  rw [List.pairwise_flatMap]
  have hcol {j : Nat} {c : EntryChange α}
      (h : c ∈ EntryChange.ofColumn j (cs.getD j []) (ds.getD j [])) : c.col = j :=
    ((EntryChange.mem_ofColumn (hc.increasing_getD j) (hd.increasing_getD j)).mp h).1
  refine ⟨fun j _ => EntryChange.pairwise_ofColumn (hc.increasing_getD j) (hd.increasing_getD j),
    List.pairwise_lt_range.imp fun {j k} hjk c hj d hk => .inl ?_⟩
  rw [hcol hj, hcol hk]
  exact hjk

end SparseMatrix
end ConicProgram
