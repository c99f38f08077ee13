import Mathlib.Data.List.Chain
import ConicProgram.Proofs.Model.Assembly

namespace ConicProgram

namespace Cone

def SameKind : Cone → Cone → Prop
  | zero _, zero _ | nonnegative _, nonnegative _ => True
  | _, _ => False

variable {c d e : Cone} {cs : List Cone} {k : Nat}

theorem join?_eq_none_iff : c.join? d = none ↔ ¬c.SameKind d := by
  cases c <;> cases d <;> simp [join?, SameKind]

theorem size_of_join? (h : c.join? d = some e) : e.size = c.size + d.size := by
  cases c <;> cases d <;> cases h <;> rfl

theorem sameKind_of_join? (h : c.join? d = some e) {x : Cone} : e.SameKind x ↔ d.SameKind x := by
  cases c <;> cases d <;> cases h <;> cases x <;> rfl

theorem ne_secondOrder_of_join? (h : c.join? d = some e) : e ≠ secondOrder k := by
  cases c <;> cases d <;> cases h <;> nofun

theorem sum_size_push : ((c.push cs).map size).sum = c.size + (cs.map size).sum := by
  cases cs
  case nil => simp [push]
  case cons d cs =>
    rw [push]
    split
    case h_1 e he => simp [size_of_join? he, Nat.add_assoc]
    case h_2 => simp

theorem mem_push_secondOrder (h : secondOrder k ∈ c.push cs) : secondOrder k ∈ c :: cs := by
  cases cs
  case nil => exact h
  case cons d cs =>
    rw [push] at h
    split at h
    case h_2 => exact h
    case h_1 e he =>
      rcases List.mem_cons.mp h with hk | h
      · exact absurd hk.symm (ne_secondOrder_of_join? he)
      · exact List.mem_cons_of_mem _ (List.mem_cons_of_mem _ h)

theorem isChain_push (h : cs.IsChain fun c d => ¬c.SameKind d) :
    (c.push cs).IsChain fun c d => ¬c.SameKind d := by
  cases cs
  case nil => exact .singleton c
  case cons d cs =>
    rw [push]
    split
    case h_1 e he =>
      have ⟨hd, hcs⟩ := List.isChain_cons.mp h
      refine List.isChain_cons.mpr ⟨fun x hx => ?_, hcs⟩
      rw [sameKind_of_join? he]
      exact hd x hx
    case h_2 hn => exact List.isChain_cons_cons.mpr ⟨join?_eq_none_iff.mp hn, h⟩

theorem sum_size_joinAll : ((joinAll cs).map size).sum = (cs.map size).sum := by
  induction cs
  case nil => rfl
  case cons c cs hi =>
    rw [joinAll, List.foldr_cons, ← joinAll, sum_size_push, hi, List.map_cons, List.sum_cons]

theorem mem_joinAll_secondOrder (h : secondOrder k ∈ joinAll cs) : secondOrder k ∈ cs := by
  induction cs
  case nil => exact h
  case cons c cs hi =>
    rcases List.mem_cons.mp (mem_push_secondOrder h) with hk | h
    · exact hk ▸ List.mem_cons_self ..
    · exact List.mem_cons_of_mem _ (hi h)

theorem isChain_joinAll : (joinAll cs).IsChain fun c d => ¬c.SameKind d := by
  induction cs
  case nil => exact .nil
  case cons c cs hi => exact isChain_push hi

end Cone

variable {α : Type} [Scalar α]

-- The parts of a system over `n` columns have the sizes that they should have.
structure Assembled.Fits (n : Nat) (a : Assembled α) : Prop where
  format      : a.matrix.checkFormat = .ok ()
  cols        : a.matrix.cols = n
  rhs         : a.rhs.length = a.matrix.rows
  sizes       : (a.cones.map (·.size)).sum = a.matrix.rows
  secondOrder : ∀ k, .secondOrder k ∈ a.cones → 2 ≤ k
  joined      : a.cones.IsChain fun c d => ¬c.SameKind d

structure SlackBlock.Fits (b : SlackBlock α) : Prop where
  size        : b.rows.length = b.cone.size
  secondOrder : ∀ k, b.cone = .secondOrder k → 2 ≤ k

theorem Row.fits_block (r : Row α) : r.block.Fits := by
  cases hs : r.sense <;> constructor <;> simp [block, hs, RowSense.cone, Cone.size]

theorem ConeConstraint.fits_block (c : ConeConstraint α) : c.block.Fits := by
  cases hl : c.legs
  case nil => constructor <;> simp [block, expressions, hl, Cone.size]
  case cons => constructor <;> simp [block, expressions, dimension, hl, Cone.size] <;> omega

namespace Model

variable {m : Model α} {bounds : List (Bounds α)} {b : SlackBlock α}

theorem fits_of_mem_boundBlocks (h : b ∈ boundBlocks bounds) : b.Fits := by
  have ⟨_, _, _, hb⟩ := mem_boundBlocks h
  rcases hb with ⟨_, rfl⟩ | ⟨_, rfl⟩ <;> exact ⟨rfl, nofun⟩

theorem fits_of_mem_blocks (h : b ∈ m.blocks bounds) : b.Fits := by
  rcases List.mem_append.mp h with h | h
  case inr =>
    have ⟨c, _, hb⟩ := List.mem_map.mp h
    exact hb ▸ c.fits_block
  case inl =>
    rcases List.mem_append.mp h with h | h
    · have ⟨r, _, hb⟩ := List.mem_map.mp h
      exact hb ▸ r.fits_block
    · exact fits_of_mem_boundBlocks h

-- Each row of the system stands in one of the cones.
theorem sum_size_blocks :
    (((m.blocks bounds).map (·.cone)).map (·.size)).sum = (m.slackRows bounds).length := by
  rw [slackRows, List.length_flatMap, List.map_map]
  congr 1
  exact List.map_congr_left fun b hb => (fits_of_mem_blocks hb).size.symm

theorem Inside.exists_fits (h : m.Inside) (hl : bounds.length ≤ m.columnCount) :
    ∃ a, m.assemble? bounds = some a ∧ a.Fits m.columnCount := by
  have ⟨matrix, hm, hg⟩ :=
    SparseMatrix.exists_gathers (SlackRow.triplets_inside (h.below_slackRows hl))
  have ⟨hrows, hcols⟩ := Prod.mk.inj hg.size
  refine ⟨_, by rw [assemble?, ← slackRows, hm]; rfl, hg.format, hcols, ?_, ?_, fun k hk => ?_, ?_⟩
  · exact (List.length_map _).trans hrows.symm
  · exact Cone.sum_size_joinAll.trans (sum_size_blocks.trans hrows.symm)
  · obtain ⟨b, hb, hk⟩ := List.mem_map.mp (Cone.mem_joinAll_secondOrder hk)
    exact (fits_of_mem_blocks hb).secondOrder k hk
  · exact Cone.isChain_joinAll

end Model
end ConicProgram
