import ConicProgram.Model.Assembly
import ConicProgram.Proofs.Model.Agreement
import ConicProgram.Proofs.Model.Scope
import ConicProgram.Proofs.Sparse.Triplets

namespace ConicProgram

variable {α : Type} [Scalar α]

namespace SlackRow

def Simple (r : SlackRow α) : Prop :=
  (r.terms.map (·.1)).Nodup

def Below (n : Nat) (r : SlackRow α) : Prop :=
  ∀ t ∈ r.terms, t.1 < n

variable {rows : List (SlackRow α)} {k : Nat} {t : Triplet α}

omit [Scalar α] in
theorem mem_triplets : t ∈ triplets k rows ↔
    k ≤ t.row ∧ ∃ r, rows[t.row - k]? = some r ∧ (t.col, t.value) ∈ r.terms := by
  induction rows generalizing k
  case nil => simp [triplets]
  case cons r rows hi =>
    rw [triplets, List.mem_append, hi]
    constructor
    case mp =>
      rintro (h | ⟨hk, r', hr, hm⟩)
      · have ⟨(j, v), hm, ht⟩ := List.mem_map.mp h
        subst ht
        exact ⟨Nat.le_refl _, r, by simp, hm⟩
      · refine ⟨by omega, r', ?_, hm⟩
        rwa [show t.row - k = t.row - (k + 1) + 1 by omega, List.getElem?_cons_succ]
    case mpr =>
      rintro ⟨hk, r', hr, hm⟩
      rcases Nat.eq_or_lt_of_le hk with rfl | hlt
      · rw [Nat.sub_self, List.getElem?_cons_zero] at hr
        cases hr
        exact .inl (List.mem_map.mpr ⟨_, hm, rfl⟩)
      · rw [show t.row - k = t.row - (k + 1) + 1 by omega, List.getElem?_cons_succ] at hr
        exact .inr ⟨hlt, r', hr, hm⟩

omit [Scalar α] in
-- The triplets at a cell are the terms of the row at the column.
theorem valuesAt_triplets (rows : List (SlackRow α)) (k i j : Nat) :
    Triplet.valuesAt (triplets k rows) (k + i) j =
      (((rows[i]?.map (·.terms)).getD []).filter (·.1 = j)).map (·.2) := by
  induction rows generalizing k i
  case nil => rfl
  case cons r rows hi =>
    have happend (ts us : List (Triplet α)) : Triplet.valuesAt (ts ++ us) (k + i) j =
        Triplet.valuesAt ts (k + i) j ++ Triplet.valuesAt us (k + i) j := by
      rw [Triplet.valuesAt, List.filter_append, List.map_append]
      rfl
    have hfirst {n : Nat} (hn : k ≠ n) :
        Triplet.valuesAt (r.terms.map fun e => ⟨k, e.1, e.2⟩) n j = [] :=
      Triplet.valuesAt_eq_nil_iff.mpr (List.forall_mem_map.mpr fun _ _ h => hn h.1)
    show Triplet.valuesAt (r.terms.map (fun e => ⟨k, e.1, e.2⟩) ++ triplets (k + 1) rows) (k + i) j =
      _
    rw [happend]
    cases i
    case zero =>
      have hrest : Triplet.valuesAt (triplets (k + 1) rows) (k + 0) j = [] :=
        Triplet.valuesAt_eq_nil_iff.mpr fun t ht hc => by
          have := (mem_triplets.mp ht).1
          omega
      rw [hrest, List.append_nil, Triplet.valuesAt, List.filter_map, List.map_map]
      simp [Function.comp_def]
    case succ i =>
      rw [hfirst (by omega), List.nil_append, show k + (i + 1) = k + 1 + i by omega, hi (k + 1) i]
      rfl

omit [Scalar α] in
theorem triplets_inside {n : Nat} (h : ∀ r ∈ rows, r.Below n) :
    ∀ t ∈ triplets 0 rows, t.row < rows.length ∧ t.col < n := by
  intro t ht
  have ⟨_, r, hr, hm⟩ := mem_triplets.mp ht
  exact ⟨(List.getElem?_eq_some_iff.mp hr).1, h r (List.mem_of_getElem? hr) _ hm⟩

end SlackRow

namespace Model

variable {m n : Model α} {bounds : List (Bounds α)}

def slackRows (m : Model α) (bounds : List (Bounds α)) : List (SlackRow α) :=
  (m.blocks bounds).flatMap (·.rows)

-- The assembled system is the one of the rows of the model. Terms of a row at one column are added
-- up.
structure Totals (m : Model α) (bounds : List (Bounds α)) (a : Assembled α) : Prop where
  rows    : a.matrix.rows = (m.slackRows bounds).length
  cols    : a.matrix.cols = m.columnCount
  entries : ∀ i j, a.matrix.entry i j =
    totalAt (((m.slackRows bounds)[i]?.map (·.terms)).getD []) j
  rhs     : a.rhs = (m.slackRows bounds).map (·.rhs)
  cones   : a.cones = Cone.joinAll ((m.blocks bounds).map (·.cone))

theorem exists_totals (hb : ∀ r ∈ m.slackRows bounds, r.Below m.columnCount) :
    ∃ a, m.assemble? bounds = some a ∧ m.Totals bounds a := by
  have ⟨a, ha, hg⟩ := SparseMatrix.exists_gathers (SlackRow.triplets_inside hb)
  have ⟨hrows, hcols⟩ := Prod.mk.inj hg.size
  refine ⟨_, by rw [assemble?, ← slackRows, ha]; rfl, hrows, hcols, fun i j => ?_, rfl, rfl⟩
  have hc := SlackRow.valuesAt_triplets (m.slackRows bounds) 0 i j
  rw [Nat.zero_add] at hc
  rw [hg.entry_eq, hc]
  rfl

-- The same where no row names a column twice.
structure Represents (m : Model α) (bounds : List (Bounds α)) (a : Assembled α) : Prop where
  rows    : a.matrix.rows = (m.slackRows bounds).length
  cols    : a.matrix.cols = m.columnCount
  entries : ∀ i j, a.matrix.entry i j =
    entryAt (((m.slackRows bounds)[i]?.map (·.terms)).getD []) j
  rhs     : a.rhs = (m.slackRows bounds).map (·.rhs)
  cones   : a.cones = Cone.joinAll ((m.blocks bounds).map (·.cone))

theorem totals_iff_represents {a : Assembled α} (hs : ∀ r ∈ m.slackRows bounds, r.Simple) :
    m.Totals bounds a ↔ m.Represents bounds a := by
  have he (i j : Nat) : totalAt (((m.slackRows bounds)[i]?.map (·.terms)).getD []) j =
      entryAt (((m.slackRows bounds)[i]?.map (·.terms)).getD []) j := by
    refine totalAt_eq_entryAt ?_
    cases hr : (m.slackRows bounds)[i]?
    case none => exact List.nodup_nil
    case some r => exact hs r (List.mem_of_getElem? hr)
  constructor
  case mp => exact fun h => ⟨h.rows, h.cols, fun i j => (h.entries i j).trans (he i j), h.rhs, h.cones⟩
  case mpr =>
    exact fun h => ⟨h.rows, h.cols, fun i j => (h.entries i j).trans (he i j).symm, h.rhs, h.cones⟩

theorem exists_assemble? (hs : ∀ r ∈ m.slackRows bounds, r.Simple)
    (hb : ∀ r ∈ m.slackRows bounds, r.Below m.columnCount) :
    ∃ a, m.assemble? bounds = some a ∧ m.Represents bounds a := by
  have ⟨a, ha, h⟩ := exists_totals hb
  exact ⟨a, ha, (totals_iff_represents hs).mp h⟩

theorem assemble?_eq_none (h : ¬∀ r ∈ m.slackRows bounds, r.Below m.columnCount) :
    m.assemble? bounds = none := by
  have hn : SparseMatrix.ofTriplets? (m.slackRows bounds).length m.columnCount
      (SlackRow.triplets 0 (m.slackRows bounds)) = none := by
    refine SparseMatrix.ofTriplets?_eq_none_iff.mpr fun hin => h fun r hr t ht => ?_
    have ⟨i, hi⟩ := List.mem_iff_getElem?.mp hr
    exact (hin ⟨i, t.1, t.2⟩ (SlackRow.mem_triplets.mpr ⟨Nat.zero_le _, r, hi, ht⟩)).2
  rw [assemble?, ← slackRows, hn]
  rfl

section Scope

def boundBlocks (bounds : List (Bounds α)) : List (SlackBlock α) :=
  bounds.zipIdx.flatMap fun (b, j) => b.blocks j

theorem mem_slackRows {r : SlackRow α} : r ∈ m.slackRows bounds ↔
    (∃ row ∈ m.rows, r ∈ row.block.rows) ∨ (∃ b ∈ boundBlocks bounds, r ∈ b.rows) ∨
      ∃ c ∈ m.cones, r ∈ c.block.rows := by
  simp only [slackRows, blocks, boundBlocks, List.flatMap_append, List.mem_append, List.mem_flatMap,
    List.mem_map, exists_exists_and_eq_and, or_assoc]

theorem mem_boundBlocks {b : SlackBlock α} (h : b ∈ boundBlocks bounds) :
    ∃ (j : Nat) (d : Bounds α), bounds[j]? = some d ∧
      ((d.hasLower ∧ b = ⟨[⟨[(j, -1)], -d.lower⟩], .nonnegative 1⟩) ∨
        (d.hasUpper ∧ b = ⟨[⟨[(j, 1)], d.upper⟩], .nonnegative 1⟩)) := by
  have ⟨(d, j), hd, hb⟩ := List.mem_flatMap.mp h
  refine ⟨j, d, List.mk_mem_zipIdx_iff_getElem?.mp hd, ?_⟩
  rcases List.mem_append.mp hb with hb | hb
  · split at hb
    case isTrue hl => exact .inl ⟨hl, List.mem_singleton.mp hb⟩
    case isFalse => cases hb
  · split at hb
    case isTrue hu => exact .inr ⟨hu, List.mem_singleton.mp hb⟩
    case isFalse => cases hb

theorem Scoped.simple_slackRows (h : m.Scoped) : ∀ r ∈ m.slackRows bounds, r.Simple := by
  intro r hr
  rcases mem_slackRows.mp hr with ⟨row, _, hr⟩ | ⟨b, hb, hr⟩ | ⟨c, hc, hr⟩
  · cases List.mem_singleton.mp hr
    have hd := row.coefficients.nodup_keys
    simpa [SlackRow.Simple, Function.comp_def] using hd
  · have ⟨j, d, _, hb⟩ := mem_boundBlocks hb
    rcases hb with ⟨_, rfl⟩ | ⟨_, rfl⟩ <;>
      (cases List.mem_singleton.mp hr; exact List.nodup_singleton _)
  · have ⟨e, he, hr⟩ := List.mem_map.mp hr
    have hd := h.terms c hc e he
    rw [← hr]
    simpa [SlackRow.Simple, AffineExpr.slackRow, Function.comp_def] using hd

-- Only a bound can name a column that is not there.
theorem Inside.below_iff (h : m.Inside) :
    (∀ r ∈ m.slackRows bounds, r.Below m.columnCount) ↔
      ∀ b ∈ boundBlocks bounds, ∀ r ∈ b.rows, r.Below m.columnCount := by
  constructor
  case mp => exact fun hb b hm r hr => hb r (mem_slackRows.mpr (.inr (.inl ⟨b, hm, hr⟩)))
  case mpr =>
    intro hb r hr
    rcases mem_slackRows.mp hr with ⟨row, hrow, hr⟩ | ⟨b, hm, hr⟩ | ⟨c, hc, hr⟩
    · cases List.mem_singleton.mp hr
      intro t ht
      have ⟨e, he, ht⟩ := List.mem_map.mp ht
      exact ht ▸ h.rows row hrow e he
    · exact hb b hm r hr
    · have ⟨e, he, hr⟩ := List.mem_map.mp hr
      intro t ht
      rw [← hr] at ht
      have ⟨u, hu, ht⟩ := List.mem_map.mp ht
      exact ht ▸ h.cones c hc e he u hu

theorem Inside.below_slackRows (h : m.Inside) (hl : bounds.length ≤ m.columnCount) :
    ∀ r ∈ m.slackRows bounds, r.Below m.columnCount := by
  refine h.below_iff.mpr fun b hb r hr => ?_
  have ⟨j, d, hd, hb⟩ := mem_boundBlocks hb
  have ⟨hj, _⟩ := List.getElem?_eq_some_iff.mp hd
  have hj := hj.trans_le hl
  rcases hb with ⟨_, rfl⟩ | ⟨_, rfl⟩ <;>
    (cases List.mem_singleton.mp hr; simpa [SlackRow.Below] using hj)

theorem Scoped.exists_assemble? (h : m.Scoped) (hl : bounds.length ≤ m.columnCount) :
    ∃ a, m.assemble? bounds = some a ∧ m.Represents bounds a :=
  Model.exists_assemble? h.simple_slackRows (h.below_slackRows hl)

end Scope
end Model

section Agreement

structure SlackRow.Agrees (r s : SlackRow α) : Prop where
  rhs   : r.rhs == s.rhs
  terms : ∀ j, entryAt r.terms j == entryAt s.terms j

structure SlackBlock.Agrees (b c : SlackBlock α) : Prop where
  rows : List.Forall₂ SlackRow.Agrees b.rows c.rows
  cone : b.cone = c.cone

structure Assembled.Agrees (a b : Assembled α) : Prop where
  matrix : a.matrix.Agrees b.matrix
  rhs    : List.Forall₂ (fun x y => x == y) a.rhs b.rhs
  cones  : a.cones = b.cones

-- Two values of which each may be missing, where a missing one stands for zero.
theorem getD_map_beq {f : α → α} (hf : ∀ {x y : α}, x == y → f x == f y) (hz : f 0 == 0)
    [Numeric α] {o o' : Option α} (h : o.getD 0 == o'.getD 0) :
    (o.map f).getD 0 == (o'.map f).getD 0 := by
  cases o <;> cases o'
  case none.none => exact h
  case none.some => exact Numeric.trans (Numeric.symm hz) (hf h)
  case some.none => exact Numeric.trans (hf h) hz
  case some.some => exact hf h

omit [Scalar α] in
theorem Row.lookup_entries (r : Row α) (j : Nat) :
    r.coefficients.entries.lookup j = r.coefficients.get? j := by
  refine Option.ext fun v => ?_
  rw [lookup_eq_some_iff r.coefficients.nodup_keys, OrderedMap.get?_eq_some_iff]

variable [Numeric α]

theorem Row.Agrees.block {r s : Row α} (h : r.Agrees s) : r.block.Agrees s.block where
  cone := congrArg RowSense.cone h.sense
  rows := by
    have hd : ∀ {x y : α}, x == y → r.sense.direction * x == r.sense.direction * y := by
      cases r.sense
      case atLeast => exact Numeric.neg_one_mul_congr
      all_goals exact Numeric.one_mul_congr
    have hz : r.sense.direction * 0 == (0 : α) := by
      cases r.sense
      case atLeast => exact Numeric.neg_one_mul_zero
      all_goals exact Numeric.one_mul_zero
    refine .cons ⟨h.sense ▸ hd h.rhs, fun j => ?_⟩ .nil
    rw [entryAt, entryAt, lookup_map, lookup_map, ← h.sense, lookup_entries, lookup_entries]
    exact getD_map_beq hd hz (h.coefficients j)

theorem AffineExpr.Agrees.slackRow {e f : AffineExpr α} (h : e.Agrees f)
    (he : (e.terms.map (·.1)).Nodup) (hf : (f.terms.map (·.1)).Nodup) :
    e.slackRow.Agrees f.slackRow where
  rhs := h.constant
  terms j := by
    have hc := h.coefficients j
    rw [coefficient_eq he, coefficient_eq hf] at hc
    rw [entryAt, entryAt, AffineExpr.slackRow, AffineExpr.slackRow, lookup_map, lookup_map]
    exact getD_map_beq Numeric.neg_congr Numeric.neg_zero hc

theorem Bounds.agrees_blocks {bounds : List (Bounds α)} {b : SlackBlock α}
    (h : b ∈ Model.boundBlocks bounds) : b.Agrees b := by
  have hrow {j : Nat} {x y : α} (hx : x == x) (hy : y == y) :
      SlackRow.Agrees ⟨[(j, x)], y⟩ ⟨[(j, x)], y⟩ := by
    refine ⟨hy, fun k => ?_⟩
    rw [entryAt_cons]
    split
    case isTrue => exact hx
    case isFalse => exact Numeric.zero_isNumber
  have ⟨j, d, _, hb⟩ := Model.mem_boundBlocks h
  rcases hb with ⟨hl, rfl⟩ | ⟨hu, rfl⟩
  · have hl := (Numeric.isNumber_of_lt (of_decide_eq_true hl)).2
    exact ⟨.cons (hrow (Numeric.neg_isNumber Numeric.one_isNumber) (Numeric.neg_isNumber hl)) .nil,
      rfl⟩
  · have hu := (Numeric.isNumber_of_lt (of_decide_eq_true hu)).1
    exact ⟨.cons (hrow Numeric.one_isNumber hu) .nil, rfl⟩

theorem ConeConstraint.Agrees.block {c d : ConeConstraint α} (h : c.Agrees d)
    (hc : ∀ e ∈ c.expressions, (e.terms.map (·.1)).Nodup)
    (hd : ∀ e ∈ d.expressions, (e.terms.map (·.1)).Nodup) : c.block.Agrees d.block where
  rows := by
    have he : List.Forall₂ AffineExpr.Agrees c.expressions d.expressions := .cons h.apex h.legs
    show List.Forall₂ _ (c.expressions.map _) (d.expressions.map _)
    rw [List.forall₂_map_left_iff, List.forall₂_map_right_iff]
    exact Lists.forall₂_imp_of_mem he fun e he f hf h => h.slackRow (hc e he) (hd f hf)
  cone := by
    have hl := h.legs.length_eq
    have he : c.legs.isEmpty = d.legs.isEmpty := by
      rw [Bool.eq_iff_iff, List.isEmpty_iff_length_eq_zero, List.isEmpty_iff_length_eq_zero, hl]
    simp only [ConeConstraint.block, he, ConeConstraint.dimension, hl]

namespace Model

variable {m n : Model α} {bounds : List (Bounds α)}

theorem Agrees.blocks (h : m.Agrees n) (hm : m.Scoped) (hn : n.Scoped) :
    List.Forall₂ SlackBlock.Agrees (m.blocks bounds) (n.blocks bounds) := by
  have hr : List.Forall₂ SlackBlock.Agrees (m.rows.map (·.block)) (n.rows.map (·.block)) := by
    rw [List.forall₂_map_left_iff, List.forall₂_map_right_iff]
    exact h.rows.imp fun _ _ h => Row.Agrees.block h
  have hb : List.Forall₂ SlackBlock.Agrees (boundBlocks bounds) (boundBlocks bounds) :=
    List.forall₂_same.mpr fun _ => Bounds.agrees_blocks
  have hc : List.Forall₂ SlackBlock.Agrees (m.cones.map (·.block)) (n.cones.map (·.block)) := by
    rw [List.forall₂_map_left_iff, List.forall₂_map_right_iff]
    exact Lists.forall₂_imp_of_mem h.cones fun c hc d hd h => h.block (hm.terms c hc) (hn.terms d hd)
  exact List.rel_append (List.rel_append hr hb) hc

theorem Represents.agrees {a b : Assembled α} (ha : m.Represents bounds a)
    (hb : n.Represents bounds b)
    (h : List.Forall₂ SlackBlock.Agrees (m.blocks bounds) (n.blocks bounds))
    (hc : m.columnCount = n.columnCount) : a.Agrees b := by
  have hr : List.Forall₂ SlackRow.Agrees (m.slackRows bounds) (n.slackRows bounds) :=
    List.rel_flatMap h fun _ _ hb => hb.rows
  refine ⟨⟨?_, ?_, fun i j => ?_⟩, ?_, ?_⟩
  · rw [ha.rows, hb.rows, hr.length_eq]
  · rw [ha.cols, hb.cols, hc]
  · rw [ha.entries, hb.entries]
    rcases Lists.getElem?_of_forall₂ hr i with ⟨hm, hn⟩ | ⟨r, s, hm, hn, h⟩ <;> rw [hm, hn]
    · exact Numeric.zero_isNumber
    · exact h.terms j
  · rw [ha.rhs, hb.rhs, List.forall₂_map_left_iff, List.forall₂_map_right_iff]
    exact hr.imp fun _ _ h => h.rhs
  · rw [ha.cones, hb.cones]
    congr 1
    rw [← List.forall₂_eq_eq_eq, List.forall₂_map_left_iff, List.forall₂_map_right_iff]
    exact h.imp fun _ _ h => h.cone

theorem Agrees.assemble? (h : m.Agrees n) (hm : m.Scoped) (hn : n.Scoped) :
    Option.Rel Assembled.Agrees (m.assemble? bounds) (n.assemble? bounds) := by
  have hcount : m.columnCount = n.columnCount := congrArg List.length h.columns
  by_cases hin : ∀ r ∈ m.slackRows bounds, r.Below m.columnCount
  case neg =>
    have hin' : ¬∀ r ∈ n.slackRows bounds, r.Below n.columnCount := by
      rwa [hn.below_iff, ← hcount, ← hm.below_iff]
    rw [assemble?_eq_none hin, assemble?_eq_none hin']
    exact .none
  case pos =>
    have hin' : ∀ r ∈ n.slackRows bounds, r.Below n.columnCount := by
      rwa [hn.below_iff, ← hcount, ← hm.below_iff]
    have ⟨a, ha, hma⟩ := exists_assemble? hm.simple_slackRows hin
    have ⟨b, hb, hnb⟩ := exists_assemble? hn.simple_slackRows hin'
    rw [ha, hb]
    exact .some (hma.agrees hnb (h.blocks hm hn) hcount)

end Model
end Agreement
end ConicProgram
