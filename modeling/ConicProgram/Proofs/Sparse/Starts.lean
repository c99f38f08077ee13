import ConicProgram.Proofs.Sparse.Format

namespace ConicProgram

namespace Starts

variable {n i position : Nat} {c : Int} {coords before after : List Int} {cs starts : List Nat}

-- Those below `i` are the ones at each place below it.
theorem sum_count_range (cs : List Nat) (i : Nat) :
    ((List.range i).map cs.count).sum = cs.countP (· < i) := by
  induction i
  case zero => simp
  case succ i hi =>
    have hs : cs.countP (· < i + 1) = cs.countP (· < i) + cs.count i := by
      clear hi
      induction cs
      case nil => rfl
      case cons c cs hcs =>
        rw [List.countP_cons, List.countP_cons, List.count_cons, hcs]
        have hk : (if c < i + 1 then 1 else 0) =
            (if c < i then 1 else 0) + if c = i then 1 else 0 := by
          split_ifs <;> omega
        simp only [decide_eq_true_eq, beq_iff_eq, hk]
        omega
    rw [List.range_succ, List.map_append, List.sum_append, hi, hs]
    simp

theorem sum_count (hc : ∀ c ∈ cs, c < n) : ((List.range n).map cs.count).sum = cs.length := by
  rw [sum_count_range, List.countP_eq_length]
  simpa using hc

-- Why a coordinate that does not lie on the axis is turned down.
def refusal (n position : Nat) (c : Int) : IndexError :=
  if c < 0 ∨ (wordSize : Int) ≤ c then .negative position else .outOfRange position c.toNat n

theorem index_eq (hn : n ≤ wordSize) : index n position c =
    if 0 ≤ c ∧ c < n then .ok c.toNat else .error (refusal n position c) := by
  unfold index refusal
  by_cases hw : c < 0 ∨ (wordSize : Int) ≤ c
  case pos =>
    have hc : ¬(0 ≤ c ∧ c < n) := by omega
    rw [if_pos hw, if_neg hc, if_pos hw]
  case neg =>
    rw [if_neg hw, if_neg hw]
    by_cases hc : n ≤ c.toNat
    case pos => rw [if_pos hc, if_neg (by omega)]
    case neg => rw [if_neg hc, if_pos (by omega)]

theorem mapM_index (hn : n ≤ wordSize) (hc : ∀ c ∈ coords, 0 ≤ c ∧ c < n) (k : Nat) :
    (coords.zipIdx k).mapM (fun e => index n e.2 e.1) = .ok (coords.map Int.toNat) := by
  rw [Lists.mapM_eq_ok_iff]
  conv_rhs => rw [← List.zipIdx_map_fst k coords, List.map_map, List.map_map]
  refine List.map_congr_left fun e he => ?_
  rw [index_eq hn, if_pos (hc e.1 (List.fst_mem_of_mem_zipIdx he))]
  rfl

theorem ofCoordinates_eq_ok (hn : n ≤ wordSize) (hc : ∀ c ∈ coords, 0 ≤ c ∧ c < n) :
    ofCoordinates coords n =
      .ok (runningTotals 0 ((List.range n).map (coords.map Int.toNat).count)) := by
  rw [ofCoordinates, mapM_index hn hc]
  rfl

theorem ofCoordinates_eq_error (hn : n ≤ wordSize) (hb : ∀ d ∈ before, 0 ≤ d ∧ d < n)
    (hc : ¬(0 ≤ c ∧ c < n)) : ofCoordinates (before ++ c :: after) n =
      .error (refusal n before.length c) := by
  rw [ofCoordinates, List.zipIdx_append, List.zipIdx_cons, List.mapM_append, mapM_index hn hb,
    List.mapM_cons]
  simp only [index_eq hn, if_neg hc, Nat.zero_add]
  rfl

-- Each entry tells how many of the coordinates, all of which lie on the axis, are smaller than its
-- place.
structure Counts (coords : List Int) (n : Nat) (starts : List Nat) : Prop where
  onAxis : ∀ c ∈ coords, 0 ≤ c ∧ c < n
  length : starts.length = n + 1
  below  : ∀ i ≤ n, starts[i]? = some (coords.countP (· < (i : Int)))

theorem counts_runningTotals (hc : ∀ c ∈ coords, 0 ≤ c ∧ c < n) :
    Counts coords n (runningTotals 0 ((List.range n).map (coords.map Int.toNat).count)) := by
  refine ⟨hc, by simp [length_runningTotals], fun i hi => ?_⟩
  rw [getElem?_runningTotals, List.length_map, List.length_range, if_pos hi, Nat.zero_add,
    ← List.map_take, List.take_range, Nat.min_eq_left hi, sum_count_range, List.countP_map]
  refine congrArg some (List.countP_congr fun c h => ?_)
  have := hc c h
  simp only [Function.comp, decide_eq_true_eq]
  omega

namespace Counts

variable (h : Counts coords n starts)
include h

theorem eq {starts' : List Nat} (h' : Counts coords n starts') : starts = starts' := by
  refine List.ext_getElem? fun i => ?_
  by_cases hi : i ≤ n
  case pos => rw [h.below i hi, h'.below i hi]
  case neg =>
    rw [List.getElem?_eq_none (by rw [h.length]; omega),
      List.getElem?_eq_none (by rw [h'.length]; omega)]

-- It is only counted how often a coordinate occurs.
theorem perm {other : List Int} (hp : other.Perm coords) : Counts other n starts where
  onAxis c hc := h.onAxis c (hp.mem_iff.mp hc)
  length := h.length
  below i hi := by rw [h.below i hi, hp.countP_eq]

theorem pairwise : starts.Pairwise (· ≤ ·) := by
  rw [List.pairwise_iff_getElem]
  intro i j hi hj hij
  have hn : j ≤ n := by
    rw [h.length] at hj
    omega
  have hx := (List.getElem?_eq_some_iff.mp (h.below i (hij.le.trans hn))).2
  have hy := (List.getElem?_eq_some_iff.mp (h.below j hn)).2
  rw [hx, hy]
  refine List.countP_mono_left fun c _ hc => ?_
  simp only [decide_eq_true_eq] at hc ⊢
  omega

theorem getLast? : starts.getLast? = some coords.length := by
  rw [List.getLast?_eq_getElem?, h.length, Nat.add_sub_cancel, h.below n le_rfl,
    Option.some.injEq, List.countP_eq_length]
  exact fun c hc => decide_eq_true (h.onAxis c hc).2

end Counts

-- There is a start array if all coordinates lie on the axis, and else the first one that does not
-- is reported.
theorem ofCoordinates_cases (hn : n ≤ wordSize) (coords : List Int) :
    (∃ starts, ofCoordinates coords n = .ok starts ∧ Counts coords n starts) ∨
    ∃ (before : List Int) (c : Int) (after : List Int), coords = before ++ c :: after ∧
      (∀ d ∈ before, 0 ≤ d ∧ d < n) ∧ ¬(0 ≤ c ∧ c < n) ∧
      ofCoordinates coords n = .error (refusal n before.length c) := by
  rcases Lists.forall_or_exists_first (fun c : Int => 0 ≤ c ∧ c < n) coords with
    h | ⟨before, c, after, rfl, hb, hc⟩
  case inl => exact .inl ⟨_, ofCoordinates_eq_ok hn h, counts_runningTotals h⟩
  case inr => exact .inr ⟨before, c, after, rfl, hb, hc, ofCoordinates_eq_error hn hb hc⟩

theorem ofCoordinates_eq_ok_iff (hn : n ≤ wordSize) :
    ofCoordinates coords n = .ok starts ↔ Counts coords n starts := by
  constructor
  case mpr =>
    intro h
    rw [ofCoordinates_eq_ok hn h.onAxis, h.eq (counts_runningTotals h.onAxis)]
  case mp =>
    intro hs
    rcases ofCoordinates_cases hn coords with ⟨_, ho, h⟩ | ⟨_, _, _, _, _, _, he⟩
    case inl => exact Except.ok.inj (hs.symm.trans ho) ▸ h
    case inr => cases hs.symm.trans he

theorem ofCoordinates_eq_error_iff (hn : n ≤ wordSize) {e : IndexError} :
    ofCoordinates coords n = .error e ↔ ∃ (before : List Int) (c : Int) (after : List Int),
      coords = before ++ c :: after ∧ (∀ d ∈ before, 0 ≤ d ∧ d < n) ∧ ¬(0 ≤ c ∧ c < n) ∧
        e = refusal n before.length c := by
  constructor
  case mpr =>
    rintro ⟨before, c, after, rfl, hb, hc, rfl⟩
    exact ofCoordinates_eq_error hn hb hc
  case mp =>
    intro he
    rcases ofCoordinates_cases hn coords with ⟨_, ho, _⟩ | ⟨before, c, after, hs, hb, hc, hr⟩
    case inl => cases he.symm.trans ho
    case inr => exact ⟨before, c, after, hs, hb, hc, Except.error.inj (he.symm.trans hr)⟩

-- The coordinates of an axis that fits into a machine word.
theorem ofCoordinates_ofNat (hc : ∀ c ∈ cs, c < n) (hn : n ≤ wordSize) :
    ofCoordinates (cs.map Int.ofNat) n = .ok (runningTotals 0 ((List.range n).map cs.count)) := by
  have hm : (cs.map Int.ofNat).map Int.toNat = cs := by simp [Function.comp_def]
  rw [ofCoordinates_eq_ok hn (by simpa using hc), hm]

theorem mapM_runningTotals (t : Nat) (cs : List Nat) :
    ((runningTotals t cs).zip (runningTotals t cs).tail).mapM (fun (first, stop) =>
      if first ≤ stop then some (stop - first) else none) = some cs := by
  induction cs generalizing t
  case nil => rfl
  case cons c cs hi =>
    have hi := hi (t + c)
    cases cs <;> simp_all [runningTotals]

theorem count_flatMap_zipIdx {β : Type} (parts : List (List β)) (k j : Nat) :
    ((parts.zipIdx k).flatMap fun (p, i) => List.replicate p.length i).count j =
      if k ≤ j then (parts.getD (j - k) []).length else 0 := by
  induction parts generalizing k
  case nil => simp
  case cons p parts hi =>
    rw [List.zipIdx_cons, List.flatMap_cons, List.count_append, hi, List.count_replicate]
    rcases Nat.lt_trichotomy j k with h | rfl | h
    case inl =>
      have h₁ : ¬k ≤ j := by omega
      have h₂ : ¬k + 1 ≤ j := by omega
      have h₃ : k ≠ j := by omega
      simp [h₁, h₂, h₃]
    case inr.inl => simp
    case inr.inr =>
      have h₁ : k ≤ j := by omega
      have h₂ : k + 1 ≤ j := by omega
      have h₃ : k ≠ j := by omega
      have h₄ : j - k = j - (k + 1) + 1 := by omega
      simp [h₁, h₂, h₃, h₄]

end Starts

namespace SparseMatrix

variable {α : Type} {rows : Nat} {cs : List (List (Nat × α))} {a : SparseMatrix α}

theorem colIndices?_ofColumns : (ofColumns rows cs).colIndices? =
    some (cs.zipIdx.flatMap fun (c, j) => List.replicate c.length j) := by
  have h := Starts.mapM_runningTotals 0 (cs.map List.length)
  simp only [colIndices?, count?_ofColumns, Option.bind_eq_bind, Option.bind_some]
  simp only [ofColumns, h, Option.bind_some, List.zipIdx_map, List.flatMap_map]
  rfl

-- The columns of the entries, put into groups, are the columns that there were.
theorem ofCoordinates_colIndices (hn : cs.length ≤ Starts.wordSize) :
    Starts.ofCoordinates ((cs.zipIdx.flatMap fun (c, j) => List.replicate c.length j).map Int.ofNat)
      cs.length = .ok (ofColumns rows cs).starts := by
  have hc : ∀ j ∈ cs.zipIdx.flatMap fun (c, j) => List.replicate c.length j, j < cs.length := by
    simp only [List.mem_flatMap, Prod.exists, List.mem_replicate, forall_exists_index, and_imp,
      List.mk_mem_zipIdx_iff_getElem?]
    rintro _ c j hc _ rfl
    exact (List.getElem?_eq_some_iff.mp hc).1
  rw [Starts.ofCoordinates_ofNat hc hn, ofColumns]
  congr 2
  refine Lists.map_range_length_eq_map fun j c h => ?_
  rw [Starts.count_flatMap_zipIdx]
  simp [h]

-- Whatever columns are empty, the start array can be told from the columns of the entries.
theorem exists_colIndices? (h : a.checkFormat = .ok ()) (hn : a.cols ≤ Starts.wordSize) :
    ∃ indices, a.colIndices? = some indices ∧
      Starts.ofCoordinates (indices.map Int.ofNat) a.cols = .ok a.starts := by
  have ⟨cs, ha, _⟩ := exists_ofColumns h
  rw [ha] at hn ⊢
  exact ⟨_, colIndices?_ofColumns, ofCoordinates_colIndices hn⟩

end SparseMatrix
end ConicProgram
