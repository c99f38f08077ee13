import ConicProgram.Proofs.Problem.Data
import ConicProgram.Proofs.Scalar.Binary64
import ConicProgram.Proofs.Sparse.Change
import ConicProgram.Warm.Plan

namespace ConicProgram

variable {α : Type} [Scalar α] {rows row col i j : Nat} {o n : α}

namespace EntryChange

variable {c : EntryChange α} {changes : List (EntryChange α)} {target : Nat → Nat → α}

-- The numbers after the new value of the change has been put in its place.
def write (c : EntryChange α) (numbers : Nat → Nat → α) : Nat → Nat → α :=
  fun i j => if i = c.row ∧ j = c.col then c.new else numbers i j

def writeAll (changes : List (EntryChange α)) (numbers : Nat → Nat → α) : Nat → Nat → α :=
  changes.foldl (fun numbers c => c.write numbers) numbers

omit [Scalar α] in
-- What is written is the target, so a place that any change names is on target in the end.
theorem writeAll_cases (h : ∀ c ∈ changes, c.new = target c.row c.col)
    (numbers : Nat → Nat → α) (i j : Nat) : writeAll changes numbers i j = target i j ∨
      (∀ c ∈ changes, ¬(i = c.row ∧ j = c.col)) ∧ writeAll changes numbers i j = numbers i j := by
  induction changes generalizing numbers
  case nil => exact .inr ⟨nofun, rfl⟩
  case cons c changes hi =>
    have ⟨hc, hcs⟩ := List.forall_mem_cons.mp h
    rcases hi hcs (c.write numbers) with hw | ⟨hn, hw⟩
    case inl => exact .inl hw
    case inr =>
      by_cases hp : i = c.row ∧ j = c.col
      case pos =>
        refine .inl (hw.trans ?_)
        rw [write, if_pos hp, hc, hp.1, hp.2]
      case neg => exact .inr ⟨List.forall_mem_cons.mpr ⟨hp, hn⟩, hw.trans (if_neg hp)⟩

variable [Numeric α]

theorem note_reversed : note row col n o = (note row col o n).map (·.reversed) := by
  unfold note
  rw [Numeric.bne_comm]
  split <;> rfl

-- The merge takes the same heads, whichever of the columns is the new one.
theorem ofColumn_reversed (new old : List (Nat × α)) :
    ofColumn col old new = (ofColumn col new old).map (·.reversed) := by
  induction new, old using ofColumn.induct
  case case1 => simp [ofColumn]
  case case2 r v new hi => simp [ofColumn, hi, note_reversed (o := (0 : α))]
  case case3 s w old hi => simp [ofColumn, hi, note_reversed (o := w)]
  case case4 r v new s w old hrs hi =>
    have hsr : compare s r = .gt := Nat.compare_eq_gt.mpr (Nat.compare_eq_lt.mp hrs)
    simp [ofColumn, hrs, hsr, hi, note_reversed (o := (0 : α))]
  case case5 r v new s w old hrs hi =>
    have hsr : compare s r = .lt := Nat.compare_eq_lt.mpr (Nat.compare_eq_gt.mp hrs)
    simp [ofColumn, hrs, hsr, hi, note_reversed (o := w)]
  case case6 r v new s w old hrs hi =>
    cases Nat.compare_eq_eq.mp hrs
    simp [ofColumn, hi, note_reversed (o := w)]

end EntryChange

namespace SparseMatrix

variable {a old : SparseMatrix α} {cs ds : List (List (Nat × α))}
  {changes : List (EntryChange α)}

theorem changesFrom_of_size_ne (h : a.size ≠ old.size) :
    a.changesFrom old = .refuse .incompatible :=
  if_pos h

theorem changesFrom_ofColumns_reversed [Numeric α] (h : cs.length = ds.length)
    (hch : (ofColumns rows cs).changesFrom (ofColumns rows ds) = .ok changes) :
    (ofColumns rows ds).changesFrom (ofColumns rows cs) = .ok (changes.map (·.reversed)) := by
  rw [changesFrom_ofColumns h] at hch
  cases hch
  rw [changesFrom_ofColumns h.symm, List.map_flatMap, ← h]
  exact congrArg Except.ok (List.flatMap_congr fun j _ => EntryChange.ofColumn_reversed ..)

-- The changes are the places at which the matrices differ, in order, each with what is there.
structure Differences (a old : SparseMatrix α) (changes : List (EntryChange α)) : Prop where
  ordered  : changes.Pairwise EntryChange.Before
  complete : ∀ c, c ∈ changes ↔
    c.old = old.entry c.row c.col ∧ c.new = a.entry c.row c.col ∧ c.new != c.old

theorem Differences.writeAll_beq [Numeric α] (h : a.Differences old changes)
    (hf : a.checkFormat = .ok ()) (hn : ∀ v ∈ a.values, Scalar.IsNumber v) (i j : Nat) :
    EntryChange.writeAll changes old.entry i j == a.entry i j := by
  have hnew : ∀ c ∈ changes, c.new = a.entry c.row c.col := fun c hc =>
    ((h.complete c).mp hc).2.1
  rcases EntryChange.writeAll_cases hnew old.entry i j with hw | ⟨hne, hw⟩
  case inl =>
    rw [hw]
    exact isNumber_entry hf hn i j
  case inr =>
    -- A place that no change names holds the same in both matrices.
    have hd : ¬(a.entry i j != old.entry i j) := fun hd =>
      hne ⟨i, j, old.entry i j, a.entry i j⟩ ((h.complete _).mpr ⟨rfl, rfl, hd⟩) ⟨rfl, rfl⟩
    rw [hw]
    exact Numeric.symm (by simpa [bne] using hd)

theorem exists_differences [Numeric α] (ha : a.checkFormat = .ok ())
    (ho : old.checkFormat = .ok ()) (hs : a.size = old.size) :
    ∃ changes, a.changesFrom old = .ok changes ∧ a.Differences old changes ∧
      old.changesFrom a = .ok (changes.map (·.reversed)) := by
  have ⟨cs, ha, hc⟩ := exists_ofColumns ha
  have ⟨ds, ho, hd⟩ := exists_ofColumns ho
  have hrows : a.rows = old.rows := congrArg Prod.fst hs
  have hcols : a.cols = old.cols := congrArg Prod.snd hs
  rw [← hrows] at ho hd
  have hl : cs.length = ds.length := by
    rw [ha, ho] at hcols
    exact hcols
  have ⟨changes, hch, hm⟩ := exists_changesFrom hc hd hl
  refine ⟨changes, ?_, ⟨?_, ?_⟩, ?_⟩
  · rw [ha, ho]
    exact hch
  · exact pairwise_changesFrom hc hd hl hch
  · rw [ha, ho]
    exact hm
  · rw [ha, ho]
    exact changesFrom_ofColumns_reversed hl hch

-- Two matrices of valid format are compared exactly if they have one size. What has been found
-- leads from the earlier matrix to the later one, and back if it is reversed.
theorem changesFrom_exact (a old : SparseMatrix Float) (ha : a.checkFormat = .ok ())
    (ho : old.checkFormat = .ok ()) :
    (a.size ≠ old.size → a.changesFrom old = .refuse .incompatible) ∧
    (a.size = old.size → ∃ changes, a.changesFrom old = .ok changes ∧
      changes.Pairwise EntryChange.Before ∧
      (∀ c, c ∈ changes ↔ c.old = old.entry c.row c.col ∧ c.new = a.entry c.row c.col ∧
        c.new != c.old) ∧
      ((∀ v ∈ a.values, Scalar.IsNumber v) →
        ∀ i j, EntryChange.writeAll changes old.entry i j == a.entry i j) ∧
      old.changesFrom a = .ok (changes.map (·.reversed))) := by
  refine ⟨changesFrom_of_size_ne, fun hs => ?_⟩
  have ⟨changes, hch, hd, hr⟩ := exists_differences ha ho hs
  exact ⟨changes, hch, hd.ordered, hd.complete, hd.writeAll_beq ha, hr⟩

-- A zero is stored at the end of the first column of the one matrix, and one with a sign at the
-- start of the second column of the other.
def earlier : SparseMatrix Float := ⟨3, 2, [0, 2, 4], [0, 2, 1, 2], [1, 0, 3, 5]⟩

def later : SparseMatrix Float := ⟨3, 2, [0, 2, 4], [0, 1, 0, 1], [1, 2, -0.0, 4]⟩

theorem changesFrom_exact_later :
    earlier.checkFormat = .ok () ∧ later.checkFormat = .ok () ∧
      later.changesFrom (zeros 2 2) = .refuse .incompatible ∧
      ∃ changes, later.changesFrom earlier = .ok changes ∧
        ⟨2, 1, 5, 0⟩ ∈ changes ∧ (∀ c ∈ changes, (c.row, c.col) ≠ (2, 0)) ∧
        (∀ i j, EntryChange.writeAll changes earlier.entry i j == later.entry i j) ∧
        earlier.changesFrom later = .ok (changes.map (·.reversed)) := by
  have he : earlier.checkFormat = .ok () := by decide
  have hl : later.checkFormat = .ok () := by decide
  have hn : ∀ v ∈ later.values, v == v := by decide
  have ⟨changes, hch, _, hm, hw, hr⟩ := (changesFrom_exact later earlier hl he).2 rfl
  refine ⟨he, hl, (changesFrom_exact later (zeros 2 2) hl (by decide)).1 (by decide), changes, hch,
    (hm _).mpr (by decide), fun c hc hp => ?_, hw hn, hr⟩
  have ⟨ho, hn, hd⟩ := (hm c).mp hc
  have ⟨hi, hj⟩ := Prod.mk.inj hp
  rw [ho, hn, hi, hj] at hd
  exact absurd hd (by decide)

end SparseMatrix
end ConicProgram
