import Mathlib.Algebra.GroupWithZero.Nat
import Mathlib.Data.Option.Basic
import ConicProgram.Proofs.Lists
import ConicProgram.Sparse.Format
import ConicProgram.Sparse.Rows

namespace ConicProgram

namespace Starts

theorem getElem?_runningTotals (t : Nat) (cs : List Nat) (j : Nat) :
    (runningTotals t cs)[j]? = if j ≤ cs.length then some (t + (cs.take j).sum) else none := by
  induction cs generalizing t j
  case nil => cases j <;> simp [runningTotals]
  case cons c cs hi => cases j <;> simp [runningTotals, hi, Nat.add_assoc]

end Starts

-- Where part `j` begins if the parts stand one behind the other.
def offset {β : Type} (parts : List (List β)) (j : Nat) : Nat :=
  ((parts.map List.length).take j).sum

section Parts

variable {β γ : Type} {parts : List (List β)} {part : List β} {j : Nat}

theorem length_flatten_take (parts : List (List β)) (j : Nat) :
    (parts.take j).flatten.length = offset parts j := by
  rw [List.length_flatten, List.map_take, offset]

theorem flatten_eq_of_getElem? (h : parts[j]? = some part) :
    parts.flatten = (parts.take j).flatten ++ (part ++ (parts.drop (j + 1)).flatten) := by
  have ⟨hj, hp⟩ := List.getElem?_eq_some_iff.mp h
  conv_lhs => rw [← List.take_append_drop j parts, List.drop_eq_getElem_cons hj, hp]
  rw [List.flatten_append, List.flatten_cons]

theorem drop_offset (h : parts[j]? = some part) :
    parts.flatten.drop (offset parts j) = part ++ (parts.drop (j + 1)).flatten := by
  rw [flatten_eq_of_getElem? h, ← length_flatten_take, List.drop_left]

-- Each part can be read again from where it begins.
theorem take_drop_offset (h : parts[j]? = some part) :
    (parts.flatten.drop (offset parts j)).take part.length = part := by
  rw [drop_offset h, List.take_left]

theorem getElem?_offset {k : Nat} {b : β} (h : parts[j]? = some part) (hk : part[k]? = some b) :
    parts.flatten[offset parts j + k]? = some b := by
  have ⟨hk', _⟩ := List.getElem?_eq_some_iff.mp hk
  rw [← List.getElem?_drop, drop_offset h, List.getElem?_append_left hk', hk]

theorem offset_add_length_le (h : parts[j]? = some part) :
    offset parts j + part.length ≤ parts.flatten.length := by
  rw [flatten_eq_of_getElem? h, ← length_flatten_take]
  simp only [List.length_append]
  omega

theorem offset_succ (h : parts[j]? = some part) :
    offset parts (j + 1) = offset parts j + part.length := by
  simp [offset, List.take_add_one, h]

theorem read?_flatten (h : parts[j]? = some part) (f : β → γ) :
    Span.read? ⟨offset parts j, offset parts j + part.length⟩ (parts.flatten.map f) =
      some (part.map f) := by
  rw [Span.read?, Lists.mapM_eq_some_iff, Span.toList, Span.length, Nat.add_sub_cancel_left]
  refine List.ext_getElem (by simp) fun k hk _ => ?_
  have hk : k < part.length := by simpa using hk
  have he := getElem?_offset h (List.getElem?_eq_getElem hk)
  simp [-List.map_flatten, he]

end Parts

-- The entry in a row of the span, with rows counted from the first of these.
def Span.localize {α : Type} (s : Span) (e : Nat × α) : Option (Nat × α) :=
  if e.1 ∈ s then some (e.1 - s.start, e.2) else none

namespace SparseMatrix

variable {α : Type} {rows j : Nat} {cs : List (List (Nat × α))} {c : List (Nat × α)}

def ofColumns (rows : Nat) (cs : List (List (Nat × α))) : SparseMatrix α where
  rows
  cols := cs.length
  starts := Starts.runningTotals 0 (cs.map List.length)
  rowIndices := cs.flatten.map (·.1)
  values := cs.flatten.map (·.2)

@[simp]
theorem rows_ofColumns : (ofColumns rows cs).rows = rows :=
  rfl

@[simp]
theorem cols_ofColumns : (ofColumns rows cs).cols = cs.length :=
  rfl

@[simp]
theorem rowIndices_ofColumns : (ofColumns rows cs).rowIndices = cs.flatten.map (·.1) :=
  rfl

@[simp]
theorem values_ofColumns : (ofColumns rows cs).values = cs.flatten.map (·.2) :=
  rfl

theorem starts_ofColumns (hj : j ≤ cs.length) :
    (ofColumns rows cs).starts[j]? = some (offset cs j) := by
  simp [ofColumns, Starts.getElem?_runningTotals, offset, hj]

theorem length_starts_ofColumns : (ofColumns rows cs).starts.length = cs.length + 1 := by
  simp [ofColumns, Starts.length_runningTotals]

theorem columnSpan?_ofColumns (h : cs[j]? = some c) :
    (ofColumns rows cs).columnSpan? j = some ⟨offset cs j, offset cs j + c.length⟩ := by
  have ⟨hj, _⟩ := List.getElem?_eq_some_iff.mp h
  simp [columnSpan?, starts_ofColumns (Nat.le_of_lt hj), starts_ofColumns hj, offset_succ h]

theorem column?_ofColumns (h : cs[j]? = some c) : (ofColumns rows cs).column? j = some c := by
  simp only [column?, columnSpan?_ofColumns h, rowIndices_ofColumns, values_ofColumns,
    Option.bind_eq_bind, Option.bind_some, read?_flatten h, Lists.zip_fst_snd, Option.pure_def]

theorem column_ofColumns (h : cs[j]? = some c) : (ofColumns rows cs).column j = c := by
  have ⟨hj, _⟩ := List.getElem?_eq_some_iff.mp h
  simp only [column, List.getD_eq_getElem?_getD, starts_ofColumns (Nat.le_of_lt hj),
    starts_ofColumns hj, offset_succ h, Option.getD_some, rowIndices_ofColumns, values_ofColumns,
    Lists.zip_fst_snd, Nat.add_sub_cancel_left, take_drop_offset h]

theorem columnIndices?_ofColumns :
    (ofColumns rows cs).columnIndices? = some (List.range cs.length) := by
  simp [columnIndices?, length_starts_ofColumns]

theorem count?_ofColumns : (ofColumns rows cs).count? = some cs.flatten.length := by
  simp [count?, starts_ofColumns, offset, ← List.map_take]

theorem entries_ofColumns : (ofColumns rows cs).entries =
    cs.zipIdx.flatMap fun (c, j) => c.map fun (r, v) => ⟨r, j, v⟩ := by
  rw [entries, List.flatMap_def, List.flatMap_def, cols_ofColumns,
    Lists.map_range_length fun j c h => by rw [column_ofColumns h]]

theorem mem_entries_ofColumns {t : Triplet α} : t ∈ (ofColumns rows cs).entries ↔
    ∃ c, cs[t.col]? = some c ∧ (t.row, t.value) ∈ c := by
  simp only [entries_ofColumns, List.mem_flatMap, List.mem_map, Prod.exists,
    List.mk_mem_zipIdx_iff_getElem?]
  constructor
  case mp =>
    rintro ⟨c, j, hc, r, v, he, rfl⟩
    exact ⟨c, hc, he⟩
  case mpr => exact fun ⟨c, hc, he⟩ => ⟨c, t.col, hc, t.row, t.value, he, rfl⟩

theorem row_ofColumns (i : Nat) : (ofColumns rows cs).row i = cs.zipIdx.flatMap fun (c, j) =>
    c.filterMap fun (r, v) => if r = i then some (j, v) else none := by
  simp only [row, entries_ofColumns, List.filterMap_flatMap, List.filterMap_map]
  rfl

theorem columnWithin?_ofColumns (h : cs[j]? = some c) (s : Span) :
    (ofColumns rows cs).columnWithin? s j = some (c.filterMap s.localize) := by
  simp only [columnWithin?, columnSpan?_ofColumns h, rowIndices_ofColumns, values_ofColumns,
    Option.bind_eq_bind, Option.bind_some, read?_flatten h, Option.pure_def, List.zipIdx_map]
  -- The places that are read are those of the entries of the column.
  have hr : ∀ x ∈ c.zipIdx (offset cs j), (cs.flatten.map (·.2))[x.2]? = some x.1.2 := by
    intro (e, p) hx
    have ⟨hp, hk⟩ := List.mk_mem_zipIdx_iff_le_and_getElem?_sub.mp hx
    have he := getElem?_offset h hk
    rw [Nat.add_sub_cancel' hp] at he
    rw [List.getElem?_map, he, Option.map_some]
  rw [Lists.filterMapM_map_eq_some (g := fun x => s.localize x.1)]
  · conv_rhs => rw [← List.zipIdx_map_fst (offset cs j) c, List.filterMap_map]
    rfl
  · intro x hx
    simp only [Prod.map, id_eq, hr x hx, Option.bind_some, Span.localize]
    split <;> rfl

theorem length_filterMap_localize (s : Span) (c : List (Nat × α)) :
    (c.filterMap s.localize).length = (c.map (·.1)).countP (· ∈ s) := by
  induction c
  case nil => rfl
  case cons e c hi => by_cases h : e.1 ∈ s <;> simp_all [Span.localize]

theorem selectRows?_ofColumns [Scalar α] {s : Span} (h₁ : s.start ≤ s.stop) (h₂ : s.stop ≤ rows) :
    (ofColumns rows cs).selectRows? s =
      some (ofColumns s.length (cs.map (·.filterMap s.localize))) := by
  have hc : (List.range cs.length).mapM ((ofColumns rows cs).columnWithin? s) =
      some (cs.map (·.filterMap s.localize)) := by
    rw [Lists.mapM_eq_some_iff, List.map_map]
    exact Lists.map_range_length_eq_map fun j c h => columnWithin?_ofColumns h s
  -- No row index stands outside of the columns, so that no room is left.
  have hk : (ofColumns rows cs).rowIndices.countP (· ∈ s) =
      (cs.map (·.filterMap s.localize)).flatten.length := by
    rw [← List.filterMap_flatten, length_filterMap_localize, rowIndices_ofColumns]
  simp only [selectRows?, columnIndices?_ofColumns, rows_ofColumns, hk, Option.bind_eq_bind,
    Option.bind_some, hc]
  simp [h₁, h₂, ofColumns, guard]

theorem row_localize {s : Span} {k : Nat} (hk : k < s.length) :
    (ofColumns s.length (cs.map (·.filterMap s.localize))).row k =
      (ofColumns rows cs).row (s.start + k) := by
  simp only [row_ofColumns, List.zipIdx_map, List.flatMap_map]
  refine List.flatMap_congr fun (c, j) _ => ?_
  simp only [Prod.map, List.filterMap_filterMap]
  refine List.filterMap_congr fun (r, v) _ => ?_
  have : k < s.stop - s.start := hk
  by_cases hr : r = s.start + k
  case pos =>
    subst hr
    have hm : s.start + k ∈ s := Span.mem_def.mpr (by omega)
    simp [Span.localize, hm]
  case neg =>
    simp only [Span.localize, if_neg hr]
    split
    case isTrue hm =>
      have := Span.mem_def.mp hm
      have : r - s.start ≠ k := by omega
      simp [this]
    case isFalse => rfl

end SparseMatrix
end ConicProgram
