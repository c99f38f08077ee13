import Mathlib.Tactic.Linarith
import ConicProgram.Proofs.Scalar.Exact
import ConicProgram.Optimizer.Branching
import ConicProgram.Proofs.Lists

namespace ConicProgram

section Box

variable {K : Type} [LinearOrder K]

-- The point lies between the bounds of the box, taken as they are given.
structure InBox (box : List (Bounds K)) (x : List K) : Prop where
  length_eq : x.length = box.length
  within    : ∀ {j : Nat} {b : Bounds K} {v : K},
    box[j]? = some b → x[j]? = some v → b.lower ≤ v ∧ v ≤ b.upper

variable {box : List (Bounds K)} {x : List K} {j : Nat} {v : K} {f : Bounds K → Bounds K}

-- A point stays inside if the new bounds of the one column let it through.
theorem InBox.modify (h : InBox box x)
    (hf : ∀ b v, box[j]? = some b → x[j]? = some v → (f b).lower ≤ v ∧ v ≤ (f b).upper) :
    InBox (box.modify j f) x where
  length_eq := by simpa using h.length_eq
  within {i b v} hb hv := by
    by_cases hi : j = i
    case pos =>
      subst hi
      simp only [List.getElem?_modify, if_true, Option.map_eq_map, Option.map_eq_some_iff] at hb
      have ⟨b', hb', he⟩ := hb
      exact he ▸ hf b' v hb' hv
    case neg => exact h.within (by simpa [List.getElem?_modify, hi] using hb) hv

-- A point inside of a box with new bounds for one column was inside before if these are narrower.
theorem InBox.of_modify (h : InBox (box.modify j f) x)
    (hf : ∀ b, box[j]? = some b → b.lower ≤ (f b).lower ∧ (f b).upper ≤ b.upper) :
    InBox box x where
  length_eq := by simpa using h.length_eq
  within {i b v} hb hv := by
    by_cases hi : j = i
    case pos =>
      subst hi
      have ⟨hl, hu⟩ := h.within (j := j) (b := f b) (by simp [hb]) hv
      exact ⟨(hf b hb).1.trans hl, hu.trans (hf b hb).2⟩
    case neg => exact h.within (by simp [hi, hb]) hv

end Box

namespace Branch

section

variable {α : Type} {x : List α} {discrete : List Nat} {b : Branch α}

theorem exists_mem_of_map_eq {bs : List (Branch α)} {j : Nat} (hj : j ∈ discrete)
    (h : discrete.map (fun j => x[j]?.map (Branch.mk j)) = bs.map some) :
    ∃ b ∈ bs, x[j]? = some b.value := by
  have hm : x[j]?.map (Branch.mk j) ∈ bs.map some := h ▸ List.mem_map_of_mem hj
  have ⟨b, hb, he⟩ := List.mem_map.mp hm
  have ⟨v, hv, he⟩ := Option.map_eq_some_iff.mp he.symm
  exact ⟨b, hb, by simp [hv, ← he]⟩

theorem column_mem_of_map_eq {bs : List (Branch α)} (hb : b ∈ bs)
    (h : discrete.map (fun j => x[j]?.map (Branch.mk j)) = bs.map some) :
    b.column ∈ discrete ∧ x[b.column]? = some b.value := by
  have hm : some b ∈ discrete.map (fun j => x[j]?.map (Branch.mk j)) :=
    h ▸ List.mem_map_of_mem hb
  have ⟨j, hj, he⟩ := List.mem_map.mp hm
  have ⟨v, hv, he⟩ := Option.map_eq_some_iff.mp he
  exact ⟨by simp [← he, hj], by simp [← he, hv]⟩

variable [Scalar α] {tolerance : α}

theorem foldl_further_eq_none_iff {bs : List (Branch α)} {best : Option (Branch α)} :
    bs.foldl further best = none ↔ best = none ∧ bs = [] := by
  induction bs generalizing best
  case nil => simp
  case cons b bs hi =>
    cases best <;> simp [hi, further]
    split <;> simp

theorem mem_of_foldl_further {bs : List (Branch α)} {best : Option (Branch α)}
    (h : bs.foldl further best = some b) : best = some b ∨ b ∈ bs := by
  induction bs generalizing best
  case nil => exact .inl h
  case cons b' bs hi =>
    rcases hi h with h | h
    case inr => exact .inr (List.mem_cons_of_mem _ h)
    case inl =>
      cases best <;> simp only [further] at h
      case none => exact .inr (by simp_all)
      case some best =>
        split at h
        · exact .inl h
        · exact .inr (by simp_all)

-- The branches that a point offers, one for each discrete column, and the choice among them.
theorem select?_eq_some_iff {found : Option (Branch α)} :
    select? x discrete tolerance = some found ↔ ∃ bs : List (Branch α),
      discrete.map (fun j => x[j]?.map (Branch.mk j)) = bs.map some ∧
        (bs.filter fun b => tolerance < fractionality b.value).foldl further none = found := by
  have h : (fun j => x[j]?.bind fun v => some ⟨j, v⟩ : Nat → Option (Branch α)) =
      fun j => x[j]?.map (Branch.mk j) := by
    funext j
    cases x[j]? <;> rfl
  simp [select?, Option.bind_eq_some_iff, Lists.mapM_eq_some_iff, h]

theorem select?_some (h : select? x discrete tolerance = some (some b)) :
    b.column ∈ discrete ∧ x[b.column]? = some b.value := by
  have ⟨bs, hbs, hs⟩ := select?_eq_some_iff.mp h
  have hb := (mem_of_foldl_further hs).resolve_left (by simp)
  exact column_mem_of_map_eq (List.mem_filter.mp hb).1 hbs

theorem exists_select? (h : ∀ j ∈ discrete, j < x.length) (tolerance : α) :
    ∃ found, select? x discrete tolerance = some found := by
  refine ⟨_, select?_eq_some_iff.mpr ⟨discrete.map fun j => ⟨j, x.getD j 0⟩, ?_, rfl⟩⟩
  rw [List.map_map]
  refine List.map_congr_left fun j hj => ?_
  simp [h j hj]

theorem children?_eq {box : List (Bounds α)} (h : b.column < box.length) : b.children? box = some (b.children box) := by
  rw [children?, guard, if_pos h]
  rfl

theorem length_of_mem_children {box child : List (Bounds α)} (h : child ∈ b.children box) :
    child.length = box.length := by
  unfold children at h
  split at h <;> rcases List.mem_pair.mp h with rfl | rfl <;> exact List.length_modify ..

end
end Branch

variable {K : Type} [Field K] [LinearOrder K] [FloorRing K]

attribute [local instance] Scalar.exact

namespace Model

variable (m : Model K)

def IntegralAt (x : List K) : Prop :=
  ∀ j ∈ m.discreteColumns, ∃ z : ℤ, x[j]? = some (z : K)

def NearlyIntegralAt (tolerance : K) (x : List K) : Prop :=
  ∀ j ∈ m.discreteColumns, ∃ v, x[j]? = some v ∧ ∃ z : ℤ, |v - z| ≤ tolerance

end Model

namespace Branch

variable {x y : List K} {b : Branch K} {box child : List (Bounds K)}

theorem mem_children : child ∈ b.children box ↔
    child = box.modify b.column (fun c => { c with upper := (⌊b.value⌋ : K) }) ∨
      child = box.modify b.column (fun c => { c with lower := (⌈b.value⌉ : K) }) := by
  unfold children
  dsimp only
  split <;> simp [Scalar.exact_floor, Scalar.exact_ceil, or_comm]

-- The parts lie inside of the box that is split, as the value does.
theorem inBox_of_child (hy : InBox box y) (hv : y[b.column]? = some b.value)
    (hc : child ∈ b.children box) (h : InBox child x) : InBox box x := by
  have hb : ∀ c, box[b.column]? = some c → c.lower ≤ b.value ∧ b.value ≤ c.upper :=
    fun c hc => hy.within hc hv
  rcases mem_children.mp hc with rfl | rfl
  · exact h.of_modify fun c hc => ⟨le_rfl, (Int.floor_le _).trans (hb c hc).2⟩
  · exact h.of_modify fun c hc => ⟨(hb c hc).1.trans (Int.le_ceil _), le_rfl⟩

variable [IsStrictOrderedRing K] {m : Model K} {tolerance v : K} {z : ℤ}

-- No integer lies strictly between the two parts.
theorem exists_child (h : InBox box x) (hx : x[b.column]? = some (z : K)) :
    ∃ child ∈ b.children box, InBox child x := by
  by_cases hz : (z : K) ≤ b.value
  case pos =>
    refine ⟨_, mem_children.mpr (.inl rfl), h.modify fun c v hc hv => ?_⟩
    cases hx ▸ hv
    exact ⟨(h.within hc hx).1, Int.cast_le.mpr (Int.le_floor.mpr hz)⟩
  case neg =>
    refine ⟨_, mem_children.mpr (.inr rfl), h.modify fun c v hc hv => ?_⟩
    cases hx ▸ hv
    exact ⟨Int.cast_le.mpr (Int.ceil_le.mpr (le_of_not_ge hz)), (h.within hc hx).2⟩

theorem exists_int_of_fractionality_le (h : fractionality v ≤ tolerance) :
    ∃ z : ℤ, |v - z| ≤ tolerance := by
  have h₀ : 0 ≤ v - ⌊v⌋ := sub_nonneg.mpr (Int.floor_le v)
  have h₁ : v - ⌊v⌋ < 1 := by linarith [Int.lt_floor_add_one v]
  simp only [fractionality, Scalar.exact_floor] at h
  split at h
  · refine ⟨⌊v⌋ + 1, ?_⟩
    rw [abs_le]
    constructor <;> push_cast <;> linarith
  · exact ⟨⌊v⌋, by rwa [abs_of_nonneg h₀]⟩

-- No branch is selected only where all discrete columns are nearly integral.
theorem select?_none (h : select? x m.discreteColumns tolerance = some none) :
    m.NearlyIntegralAt tolerance x := by
  have ⟨bs, hbs, hn⟩ := select?_eq_some_iff.mp h
  intro j hj
  have ⟨b, hb, hv⟩ := exists_mem_of_map_eq hj hbs
  have hf := List.filter_eq_nil_iff.mp (foldl_further_eq_none_iff.mp hn).2 b hb
  exact ⟨b.value, hv, exists_int_of_fractionality_le (by simpa using hf)⟩

end Branch

namespace Search

variable [IsStrictOrderedRing K] {m : Model K} {x point : List K}

theorem foldl_modify_round {js : List Nat} (h : ∀ j ∈ js, ∃ z : ℤ, x[j]? = some (z : K)) :
    js.foldl (fun x j => x.modify j Scalar.round) x = x := by
  refine List.ext_getElem? fun i => ?_
  rw [Lists.getElem?_foldl_modify]
  by_cases hi : i ∈ js
  case pos =>
    have ⟨z, hz⟩ := h i hi
    rw [hz, Option.map_some, Function.iterate_fixed (Scalar.exact_round_intCast z)]
  case neg =>
    rw [List.count_eq_zero_of_not_mem hi]
    exact Option.map_id_apply

-- Rounding leaves a point alone that is integral already.
theorem integralPoint?_eq (hi : m.IntegralAt x) (hl : x.length = m.columnCount)
    (h : integralPoint? m m.discreteColumns x = some point) : point = x := by
  simp only [integralPoint?, Option.bind_eq_bind, Option.bind_eq_some_iff] at h
  have ⟨_, _, h⟩ := h
  cases h
  rw [← hl, List.take_length]
  exact foldl_modify_round hi

omit [IsStrictOrderedRing K] in
-- Whatever point is rounded, the discrete coordinates are integers then.
theorem integralAt_of_integralPoint? (h : integralPoint? m m.discreteColumns x = some point) :
    point.length = m.columnCount ∧ m.IntegralAt point := by
  rw [integralPoint?, guard] at h
  split at h <;> cases h
  case isTrue hg =>
  have ⟨hl, hd⟩ := hg
  refine ⟨by rw [Lists.length_foldl_modify, List.length_take, Nat.min_eq_left hl], fun j hj => ?_⟩
  have ⟨n, hn⟩ := Nat.exists_eq_succ_of_ne_zero (List.count_pos_iff.mpr hj).ne'
  have hx : j < (x.take m.columnCount).length := by
    rw [List.length_take, Nat.min_eq_left hl]
    exact hd j hj
  rw [Lists.getElem?_foldl_modify, List.getElem?_eq_getElem hx, Option.map_some, hn,
    Function.iterate_succ_apply']
  have ⟨z, hz⟩ := Scalar.exists_exact_round_eq (Scalar.round^[n] (x.take m.columnCount)[j])
  exact ⟨z, congrArg some hz⟩

end Search
end ConicProgram
