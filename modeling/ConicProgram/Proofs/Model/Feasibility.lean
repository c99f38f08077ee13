import Mathlib.Tactic.Linarith
import ConicProgram.Proofs.Model.Assembly
import ConicProgram.Proofs.Sparse.Totals

namespace ConicProgram

variable {K : Type} [Field K] [LinearOrder K] [FloorRing K]

attribute [local instance] Scalar.exact

section Sums

variable {z : Nat → K}

def SlackRow.slack (r : SlackRow K) (z : Nat → K) : K :=
  r.rhs - (r.terms.map fun e => e.2 * z e.1).sum

theorem Row.value_eq_sum (r : Row K) :
    r.value z = (r.coefficients.entries.map fun e => e.2 * z e.1).sum :=
  (foldl_add_eq_sum _ (fun e : Nat × K => e.2 * z e.1) 0).trans (zero_add _)

theorem Row.value_eq {r : Row K} {n : Nat}
    (hr : ∀ e ∈ r.coefficients.entries, e.1 < n) :
    r.value z = ∑ j ∈ Finset.range n, r.coefficient j * z j := by
  rw [Row.value_eq_sum, ← sum_entryAt r.coefficients.nodup_keys hr]
  refine Finset.sum_congr rfl fun j _ => ?_
  rw [entryAt, Row.lookup_entries, Row.coefficient]

theorem AffineExpr.value_eq_sum (e : AffineExpr K) :
    e.value z = e.constant + (e.terms.map fun e => e.2 * z e.1).sum :=
  foldl_add_eq_sum _ (fun e : Nat × K => e.2 * z e.1) e.constant

theorem sum_neg_terms (terms : List (Nat × K)) :
    ((terms.map fun (j, v) => (j, -v)).map fun e => e.2 * z e.1).sum =
      -(terms.map fun e => e.2 * z e.1).sum := by
  rw [List.sum_neg, List.map_map, List.map_map]
  simp only [Function.comp_def, neg_mul]

theorem AffineExpr.slack_slackRow (e : AffineExpr K) : e.slackRow.slack z = e.value z := by
  rw [AffineExpr.value_eq_sum, SlackRow.slack, slackRow, sum_neg_terms, sub_neg_eq_add]

end Sums

section Blocks

variable [IsStrictOrderedRing K] {z : Nat → K}

def SlackBlock.Admits (b : SlackBlock K) (z : Nat → K) : Prop :=
  b.cone.Contains (b.rows.map (·.slack z))

theorem Row.admits_block_iff (r : Row K) : r.block.Admits z ↔ r.Holds z := by
  have hs : r.block.rows.map (·.slack z) = [r.sense.direction * (r.rhs - r.value z)] := by
    rw [Row.value_eq_sum, mul_sub, ← List.sum_map_mul_left]
    simp [Row.block, SlackRow.slack, Function.comp_def, mul_assoc]
  rw [SlackBlock.Admits, hs, Row.Holds, Row.block]
  cases r.sense <;> simp [RowSense.direction, RowSense.cone, Cone.Contains, and_comm]

theorem Bounds.admits_blocks_iff (b : Bounds K) (j : Nat) :
    (∀ c ∈ b.blocks j, c.Admits z) ↔ b.Contains (z j) := by
  have hl : SlackBlock.Admits ⟨[⟨[(j, -1)], -b.lower⟩], .nonnegative 1⟩ z ↔ b.lower ≤ z j := by
    simp [SlackBlock.Admits, Cone.Contains, SlackRow.slack]
  have hu : SlackBlock.Admits ⟨[⟨[(j, 1)], b.upper⟩], .nonnegative 1⟩ z ↔ z j ≤ b.upper := by
    simp [SlackBlock.Admits, Cone.Contains, SlackRow.slack]
  simp only [Bounds.blocks, List.mem_append, or_imp, forall_and, Bounds.Contains]
  refine and_congr ?_ ?_
  · split <;> simp_all
  · split <;> simp_all

omit [IsStrictOrderedRing K] in
theorem Cone.contains_secondOrder_cons {n : Nat} {x : K} {xs : List K} :
    (secondOrder n).Contains (x :: xs) ↔ xs.length + 1 = n ∧ 0 ≤ x ∧
      (xs.map fun x => x * x).foldl (· + ·) 0 ≤ x * x := by
  simp [Contains]

theorem ConeConstraint.admits_block_iff (c : ConeConstraint K) : c.block.Admits z ↔ c.Holds z := by
  have hs : c.block.rows.map (·.slack z) = c.apex.value z :: c.legs.map (·.value z) := by
    simp [ConeConstraint.block, ConeConstraint.expressions, AffineExpr.slack_slackRow]
  rw [SlackBlock.Admits, hs, ConeConstraint.block, ConeConstraint.Holds]
  by_cases hl : c.legs = []
  case pos =>
    have hsq : 0 ≤ c.apex.value z → 0 ≤ c.apex.value z * c.apex.value z := fun h => mul_nonneg h h
    simpa [hl, Cone.Contains] using hsq
  case neg =>
    rw [if_neg (by simpa using hl), Cone.contains_secondOrder_cons, List.map_map]
    rw [List.length_map, dimension, and_iff_right (Nat.add_comm ..)]
    rfl

end Blocks

section Product

namespace Cone

theorem length_of_contains {c : Cone} {s : List K} (h : c.Contains s) : s.length = c.size := by
  cases c <;> exact h.1

theorem productContains_cons {c : Cone} {cs : List Cone} {first rest : List K}
    (hl : first.length = c.size) :
    ProductContains (c :: cs) (first ++ rest) ↔ c.Contains first ∧ ProductContains cs rest := by
  constructor
  case mpr => exact fun ⟨hc, hcs⟩ => ⟨first, rest, rfl, hc, hcs⟩
  case mp =>
    intro ⟨first', rest', he, hc, hcs⟩
    have ⟨h₁, h₂⟩ := List.append_inj he (hl.trans (length_of_contains hc).symm)
    exact ⟨h₁ ▸ hc, h₂ ▸ hcs⟩

omit [Field K] [LinearOrder K] [FloorRing K] in
theorem forall_append_iff {q : K → Prop} {m n : Nat} {s : List K} :
    (s.length = m + n ∧ ∀ x ∈ s, q x) ↔ ∃ s₁ s₂, s = s₁ ++ s₂ ∧
      (s₁.length = m ∧ ∀ x ∈ s₁, q x) ∧ (s₂.length = n ∧ ∀ x ∈ s₂, q x) := by
  constructor
  case mp =>
    intro ⟨hl, hq⟩
    refine ⟨s.take m, s.drop m, (List.take_append_drop m s).symm, ⟨?_, ?_⟩, ?_, ?_⟩
    · rw [List.length_take, hl, Nat.min_eq_left (Nat.le_add_right m n)]
    · exact fun x hx => hq x (List.mem_of_mem_take hx)
    · rw [List.length_drop, hl, Nat.add_sub_cancel_left]
    · exact fun x hx => hq x (List.mem_of_mem_drop hx)
  case mpr =>
    rintro ⟨s₁, s₂, rfl, ⟨rfl, h₁⟩, rfl, h₂⟩
    exact ⟨List.length_append, List.forall_mem_append.mpr ⟨h₁, h₂⟩⟩

theorem contains_of_join? {c d e : Cone} (h : c.join? d = some e) {s : List K} :
    e.Contains s ↔ ∃ s₁ s₂, s = s₁ ++ s₂ ∧ c.Contains s₁ ∧ d.Contains s₂ := by
  cases c <;> cases d <;> cases h
  case zero.zero.refl m n => exact forall_append_iff
  case nonnegative.nonnegative.refl m n => exact forall_append_iff

theorem productContains_of_join? {c d e : Cone} (h : c.join? d = some e) {cs : List Cone}
    {s : List K} : ProductContains (e :: cs) s ↔ ProductContains (c :: d :: cs) s := by
  constructor
  case mp =>
    rintro ⟨first, rest, rfl, he, hcs⟩
    have ⟨s₁, s₂, hs, h₁, h₂⟩ := (contains_of_join? h).mp he
    exact ⟨s₁, s₂ ++ rest, by rw [hs, List.append_assoc], h₁, s₂, rest, rfl, h₂, hcs⟩
  case mpr =>
    rintro ⟨s₁, _, rfl, h₁, s₂, rest, rfl, h₂, hcs⟩
    exact ⟨s₁ ++ s₂, rest, (List.append_assoc ..).symm,
      (contains_of_join? h).mpr ⟨s₁, s₂, rfl, h₁, h₂⟩, hcs⟩

theorem productContains_push {c : Cone} {cs : List Cone} {s : List K} :
    ProductContains (c.push cs) s ↔ ProductContains (c :: cs) s := by
  cases cs
  case nil => rfl
  case cons d ds =>
    rw [push]
    split
    case h_1 joined hj => exact productContains_of_join? hj
    case h_2 => rfl

-- Joining the neighbours leaves the product as it is.
theorem productContains_joinAll {cs : List Cone} {s : List K} :
    ProductContains (joinAll cs) s ↔ ProductContains cs s := by
  induction cs generalizing s
  case nil => rfl
  case cons c cs hi =>
    rw [joinAll, List.foldr_cons, ← joinAll, productContains_push]
    exact exists_congr fun _ => exists_congr fun _ => and_congr_right fun _ =>
      and_congr_right fun _ => hi

end Cone

-- The blocks split the slacks among the cones.
theorem productContains_iff {bs : List (SlackBlock K)} {z : Nat → K}
    (hb : ∀ b ∈ bs, b.rows.length = b.cone.size) :
    Cone.ProductContains (bs.map (·.cone)) ((bs.flatMap (·.rows)).map (·.slack z)) ↔
      ∀ b ∈ bs, b.Admits z := by
  induction bs
  case nil => simp [Cone.ProductContains]
  case cons b bs hi =>
    have hl := hb b (List.mem_cons_self ..)
    rw [List.map_cons, List.flatMap_cons, List.map_append,
      Cone.productContains_cons (by rw [List.length_map, hl]),
      hi fun b hm => hb b (List.mem_cons_of_mem _ hm), List.forall_mem_cons, SlackBlock.Admits]

end Product

section System

variable {m : Model K} {bounds : List (Bounds K)} {a : Assembled K} {z : Nat → K}

namespace Assembled

def slack (a : Assembled K) (z : Nat → K) : List K :=
  a.rhs.zipIdx.map fun (b, i) => b - ∑ j ∈ Finset.range a.matrix.cols, a.matrix.entry i j * z j

def Admits (a : Assembled K) (z : Nat → K) : Prop :=
  Cone.ProductContains a.cones (a.slack z)

end Assembled

namespace Model

theorem Totals.slack_eq (h : m.Totals bounds a)
    (hb : ∀ r ∈ m.slackRows bounds, r.Below m.columnCount) :
    a.slack z = (m.slackRows bounds).map (·.slack z) := by
  refine List.ext_getElem? fun i => ?_
  rw [Assembled.slack, h.rhs, h.cols]
  simp only [List.getElem?_map, List.getElem?_zipIdx, h.entries]
  cases hr : (m.slackRows bounds)[i]?
  case none => rfl
  case some r =>
    have hv := sum_totalAt (z := z) (hb r (List.mem_of_getElem? hr))
    simp [SlackRow.slack, hr, hv]

theorem length_rows_of_mem_blocks {b : SlackBlock K} (h : b ∈ m.blocks bounds) :
    b.rows.length = b.cone.size := by
  rcases List.mem_append.mp h with h | h
  · rcases List.mem_append.mp h with h | h
    · have ⟨r, _, hr⟩ := List.mem_map.mp h
      rw [← hr, Row.block]
      cases r.sense <;> rfl
    · have ⟨_, _, _, h⟩ := mem_boundBlocks h
      rcases h with ⟨_, rfl⟩ | ⟨_, rfl⟩ <;> rfl
  · have ⟨c, _, hc⟩ := List.mem_map.mp h
    rw [← hc, ConeConstraint.block]
    by_cases hl : c.legs = []
    · simp [hl, ConeConstraint.expressions, Cone.size]
    · simp [hl, ConeConstraint.expressions, Cone.size, ConeConstraint.dimension, Nat.add_comm]

-- The assembled system admits the points that satisfy the model within the bounds.
theorem Totals.admits_iff [IsStrictOrderedRing K] (h : m.Totals bounds a) (hm : m.Inside)
    (hl : bounds.length ≤ m.columnCount) :
    a.Admits z ↔ m.Satisfied z ∧
      ∀ (j : Nat) (b : Bounds K), bounds[j]? = some b → b.Contains (z j) := by
  rw [Assembled.Admits, h.cones, Cone.productContains_joinAll,
    h.slack_eq (hm.below_slackRows hl), slackRows,
    productContains_iff fun b hb => length_rows_of_mem_blocks hb]
  have hbounds : (∀ c ∈ boundBlocks bounds, c.Admits z) ↔
      ∀ (j : Nat) (b : Bounds K), bounds[j]? = some b → b.Contains (z j) := by
    simp only [boundBlocks, List.forall_mem_flatMap, Prod.forall, List.mk_mem_zipIdx_iff_getElem?,
      Bounds.admits_blocks_iff]
    exact forall_comm
  have hrows : (∀ c ∈ m.rows.map (·.block), c.Admits z) ↔ ∀ r ∈ m.rows, r.Holds z := by
    simp only [List.forall_mem_map, Row.admits_block_iff]
  have hcones : (∀ c ∈ m.cones.map (·.block), c.Admits z) ↔ ∀ c ∈ m.cones, c.Holds z := by
    simp only [List.forall_mem_map, ConeConstraint.admits_block_iff]
  rw [blocks, List.forall_mem_append, List.forall_mem_append, hrows, hcones, Satisfied]
  rw [← hbounds, boundBlocks, and_right_comm]

theorem Represents.admits_iff [IsStrictOrderedRing K] (h : m.Represents bounds a) (hm : m.Scoped)
    (hl : bounds.length ≤ m.columnCount) :
    a.Admits z ↔ m.Satisfied z ∧
      ∀ (j : Nat) (b : Bounds K), bounds[j]? = some b → b.Contains (z j) :=
  ((totals_iff_represents hm.simple_slackRows).mpr h).admits_iff hm.toInside hl

end Model
end System
end ConicProgram
