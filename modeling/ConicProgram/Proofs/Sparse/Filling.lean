import ConicProgram.Proofs.Sparse.Format

namespace ConicProgram

section Parts

variable {β : Type} {parts : List (List β)} {p q : List β} {b : β} {i j k l : Nat}

theorem offset_mono (parts : List (List β)) (h : i ≤ j) : offset parts i ≤ offset parts j := by
  induction j, h using Nat.le_induction
  case base => exact Nat.le_refl _
  case succ j _ hi =>
    refine hi.trans ?_
    simp [offset, List.take_add_one]

theorem offset_add_le (hp : parts[i]? = some p) (h : i < j) :
    offset parts i + p.length ≤ offset parts j :=
  offset_succ hp ▸ offset_mono parts h

-- No two parts share a place.
theorem offset_inj (hp : parts[i]? = some p) (hq : parts[j]? = some q) (hk : k < p.length)
    (hl : l < q.length) (h : offset parts i + k = offset parts j + l) : i = j ∧ k = l := by
  rcases Nat.lt_trichotomy i j with hij | rfl | hij
  case inl =>
    have := offset_add_le hp hij
    omega
  case inr.inl => exact ⟨rfl, Nat.add_left_cancel h⟩
  case inr.inr =>
    have := offset_add_le hq hij
    omega

-- Each place belongs to a part.
theorem exists_offset {n : Nat} (h : parts.flatten[n]? = some b) :
    ∃ j q k, parts[j]? = some q ∧ q[k]? = some b ∧ n = offset parts j + k := by
  induction parts generalizing n
  case nil => cases h
  case cons p parts hi =>
    rw [List.flatten_cons, List.getElem?_append] at h
    split at h
    case isTrue => exact ⟨0, p, n, rfl, h, (Nat.zero_add n).symm⟩
    case isFalse hn =>
      have ⟨j, q, k, hq, hb, hk⟩ := hi h
      refine ⟨j + 1, q, k, hq, hb, ?_⟩
      simp only [offset, List.map_cons, List.take_succ_cons, List.sum_cons] at hk ⊢
      omega

end Parts

namespace Triplet

variable {α : Type} {ts : List (Triplet α)} {t : Triplet α} {i k n : Nat}

def inRow (ts : List (Triplet α)) (i : Nat) : List (Nat × α) :=
  ts.filterMap fun t => if t.row = i then some (t.col, t.value) else none

-- The entries of the first `n` rows, row by row.
def byRow (n : Nat) (ts : List (Triplet α)) : List (List (Nat × α)) :=
  (List.range n).map (inRow ts)

theorem getElem?_byRow (h : i < n) : (byRow n ts)[i]? = some (inRow ts i) := by
  simp [byRow, h]

theorem inRow_eq_map_filter (ts : List (Triplet α)) (i : Nat) :
    inRow ts i = (ts.filter (·.row = i)).map fun t => (t.col, t.value) := by
  induction ts
  case nil => rfl
  case cons t ts hi =>
    rw [inRow, List.filterMap_cons]
    by_cases hr : t.row = i <;> simp [hr, ← hi, inRow]

theorem inRow_append (ts us : List (Triplet α)) (i : Nat) :
    inRow (ts ++ us) i = inRow ts i ++ inRow us i :=
  List.filterMap_append ..

theorem length_inRow_concat (ts : List (Triplet α)) (t : Triplet α) (i : Nat) :
    (inRow (ts ++ [t]) i).length = (inRow ts i).length + if t.row = i then 1 else 0 := by
  by_cases h : t.row = i <;> simp [inRow, h]

-- The entries of a row are those that there were, and the new one if it belongs to the row.
theorem getElem?_inRow_concat {e : Nat × α} (h : (inRow (ts ++ [t]) i)[k]? = some e) :
    (inRow ts i)[k]? = some e ∨
      t.row = i ∧ (inRow ts i).length = k ∧ e = (t.col, t.value) := by
  rw [inRow_append, List.getElem?_append] at h
  split at h
  case isTrue => exact .inl h
  case isFalse hk =>
    by_cases hr : t.row = i
    case neg => simp [inRow, hr] at h
    case pos =>
      have h : k - (inRow ts i).length = 0 ∧ (t.col, t.value) = e := by
        simpa [inRow, hr, List.getElem?_singleton] using h
      exact .inr ⟨hr, by omega, h.2.symm⟩

end Triplet

namespace RowBlock.Filling

open Triplet

variable {α : Type} {ts placed rest : List (Triplet α)} {t : Triplet α} {f : Filling α} {n : Nat}

-- The first entries are in place. Those of a row stand from the beginning of its part on, and its
-- next one goes behind them.
structure Filled (n : Nat) (ts placed : List (Triplet α)) (f : Filling α) : Prop where
  next       : ∀ i < n, f.next[i]? = some (offset (byRow n ts) i + (inRow placed i).length)
  colIndices : f.colIndices.length = (byRow n ts).flatten.length
  values     : f.values.length = (byRow n ts).flatten.length
  held       : ∀ i < n, ∀ k e, (inRow placed i)[k]? = some e →
    f.colIndices[offset (byRow n ts) i + k]? = some e.1 ∧
    f.values[offset (byRow n ts) i + k]? = some e.2

theorem filled_nil [Scalar α] (n : Nat) (ts : List (Triplet α)) :
    Filled n ts [] ⟨Starts.runningTotals 0 ((byRow n ts).map List.length),
      List.replicate (byRow n ts).flatten.length 0,
      List.replicate (byRow n ts).flatten.length 0⟩ where
  next i hi := by simp [Starts.getElem?_runningTotals, offset, inRow, byRow, Nat.le_of_lt hi]
  colIndices := List.length_replicate
  values := List.length_replicate
  held _ _ _ _ h := absurd h (by simp [inRow])

theorem put?_eq_some {place : Nat} (hn : f.next[t.row]? = some place)
    (hc : place < f.colIndices.length) (hv : place < f.values.length) :
    f.put? t = some ⟨f.next.modify t.row (· + 1), f.colIndices.set place t.col,
      f.values.set place t.value⟩ := by
  simp [put?, hn, hc, hv, guard]

-- What comes next finds a place of its own, behind the entries of its row that are there.
theorem Filled.put? (h : Filled n ts placed f) (hts : ts = placed ++ t :: rest)
    (ht : t.row < n) : ∃ g, f.put? t = some g ∧ Filled n ts (placed ++ [t]) g := by
  have hroom (i : Nat) : (inRow (placed ++ [t]) i).length ≤ (inRow ts i).length := by
    rw [hts, List.append_cons placed t rest, inRow_append _ rest, List.length_append]
    exact Nat.le_add_right ..
  have hrow (i : Nat) (hi : i < n) : (byRow n ts)[i]? = some (inRow ts i) := getElem?_byRow hi
  have hself := hroom t.row
  rw [length_inRow_concat, if_pos rfl] at hself
  have hend := offset_add_length_le (hrow _ ht)
  let place := offset (byRow n ts) t.row + (inRow placed t.row).length
  have hc : place < f.colIndices.length := by
    rw [h.colIndices]
    omega
  have hv : place < f.values.length := by
    rw [h.values]
    omega
  refine ⟨_, put?_eq_some (h.next _ ht) hc hv, fun i hi => ?_, ?_, ?_, fun i hi k e he => ?_⟩
  case refine_1 =>
    rw [List.getElem?_modify, h.next i hi, length_inRow_concat]
    by_cases hr : t.row = i <;> simp [hr, Nat.add_assoc]
  case refine_2 => rw [List.length_set, h.colIndices]
  case refine_3 => rw [List.length_set, h.values]
  case refine_4 =>
    rcases getElem?_inRow_concat he with he | ⟨rfl, rfl, rfl⟩
    case inl =>
      -- An entry that is there stands in another part, or further to the left.
      have hk := (List.getElem?_eq_some_iff.mp he).1
      have hk' : k < (inRow ts i).length := by
        have := hroom i
        rw [length_inRow_concat] at this
        omega
      have hne : place ≠ offset (byRow n ts) i + k := by
        intro hp
        obtain ⟨rfl, hl⟩ := offset_inj (hrow _ ht) (hrow _ hi) hself hk' hp
        omega
      rw [List.getElem?_set_ne hne, List.getElem?_set_ne hne]
      exact h.held i hi k e he
    case inr => exact ⟨List.getElem?_set_self hc, List.getElem?_set_self hv⟩

theorem Filled.foldlM (h : Filled n ts placed f) (hts : ts = placed ++ rest)
    (hr : ∀ t ∈ ts, t.row < n) : ∃ g, rest.foldlM Filling.put? f = some g ∧ Filled n ts ts g := by
  induction rest generalizing placed f
  case nil =>
    rw [List.append_nil] at hts
    exact ⟨f, rfl, hts ▸ h⟩
  case cons t rest hi =>
    have ht : t ∈ ts := hts ▸ List.mem_append_right _ (List.mem_cons_self ..)
    have ⟨g, hg, hf⟩ := h.put? hts (hr t ht)
    rw [List.foldlM_cons, hg]
    exact hi hf (by rw [hts, List.append_cons])

-- When all entries are in place the rows stand one behind the other.
theorem Filled.eq_flatten (h : Filled n ts ts f) :
    f.colIndices = (byRow n ts).flatten.map (·.1) ∧ f.values = (byRow n ts).flatten.map (·.2) := by
  have hheld (p : Nat) (e : Nat × α) (he : (byRow n ts).flatten[p]? = some e) :
      f.colIndices[p]? = some e.1 ∧ f.values[p]? = some e.2 := by
    have ⟨i, r, k, hi, hk, hp⟩ := exists_offset he
    have hn : i < n := by simpa [byRow] using (List.getElem?_eq_some_iff.mp hi).1
    rw [getElem?_byRow hn] at hi
    cases hi
    exact hp ▸ h.held i hn k e hk
  exact ⟨Lists.eq_map_of_getElem? h.colIndices fun p e he => (hheld p e he).1,
    Lists.eq_map_of_getElem? h.values fun p e he => (hheld p e he).2⟩

-- Entries that are put in place from the beginning of each row on.
theorem exists_foldlM_put? [Scalar α] {starts : List Nat} {count : Nat}
    (h : ∀ t ∈ ts, t.row < n)
    (hs : starts = Starts.runningTotals 0 ((byRow n ts).map List.length))
    (hc : count = (byRow n ts).flatten.length) :
    ∃ filled,
      ts.foldlM put? ⟨starts, List.replicate count 0, List.replicate count 0⟩ = some filled ∧
      filled.colIndices = (byRow n ts).flatten.map (·.1) ∧
      filled.values = (byRow n ts).flatten.map (·.2) := by
  have ⟨filled, hf, hd⟩ := (filled_nil n ts).foldlM rfl h
  rw [hs, hc]
  exact ⟨filled, hf, hd.eq_flatten⟩

end RowBlock.Filling
end ConicProgram
