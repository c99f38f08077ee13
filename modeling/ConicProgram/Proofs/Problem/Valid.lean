import ConicProgram.Problem.Basic
import ConicProgram.Proofs.Sparse.Format

namespace ConicProgram

namespace ConeBlock

theorem sizes_sequence (index start : Nat) (sizes : List Nat) :
    (sequence index start sizes).map (·.size) = sizes := by
  induction sizes generalizing index start
  case nil => rfl
  case cons size sizes hi => simp [sequence, hi]

theorem sequence_append (index start : Nat) (sizes rest : List Nat) :
    sequence index start (sizes ++ rest) =
      sequence index start sizes ++ sequence (index + sizes.length) (start + sizes.sum) rest := by
  induction sizes generalizing index start
  case nil => simp [sequence]
  case cons size sizes hi =>
    simp [sequence, hi, Nat.add_assoc, Nat.add_comm 1, Nat.add_left_comm]

-- The rows of the blocks stand one behind the other.
theorem rows_sequence (index start : Nat) (sizes : List Nat) :
    (sequence index start sizes).flatMap (·.rows.toList) = List.range' start sizes.sum := by
  induction sizes generalizing index start
  case nil => rfl
  case cons size sizes hi =>
    rw [sequence, List.flatMap_cons, hi, rows, Span.toList, Span.length, Nat.add_sub_cancel_left,
      List.sum_cons]
    simp

theorem start_le_of_mem_sequence {index start : Nat} {sizes : List Nat} {b : ConeBlock}
    (h : b ∈ sequence index start sizes) : start ≤ b.start := by
  induction sizes generalizing index start
  case nil => cases h
  case cons size sizes hi =>
    rcases List.mem_cons.mp h with rfl | h
    · exact Nat.le_refl _
    · exact (Nat.le_add_right ..).trans (hi h)

end ConeBlock

namespace Partition

variable (p : Partition)

theorem totalRows_eq : p.totalRows = p.linearRows + p.cones.sum := by
  rw [totalRows, List.sum]

theorem linearRows_le : p.linearRows ≤ p.totalRows := by
  rw [totalRows_eq]
  omega

theorem sizes_blocks : p.blocks.map (·.size) = p.cones :=
  ConeBlock.sizes_sequence ..

variable {p} {bs rest : List ConeBlock} {b : ConeBlock}

-- Where a block lies that follows the given ones.
structure Follows (p : Partition) (bs : List ConeBlock) (b : ConeBlock) : Prop where
  index : b.index = bs.length
  start : b.start = p.linearRows + (bs.map (·.size)).sum
  size  : b.size ∈ p.cones
  stop  : b.start + b.size ≤ p.totalRows
  taken : p.blocks.take b.index = bs

theorem follows_of_blocks_eq (h : p.blocks = bs ++ b :: rest) : p.Follows bs b := by
  have hc : p.cones = bs.map (·.size) ++ b.size :: rest.map (·.size) := by
    rw [← sizes_blocks, h, List.map_append, List.map_cons]
  have hs := ConeBlock.sequence_append 0 p.linearRows (bs.map (·.size))
    (b.size :: rest.map (·.size))
  rw [← hc, ← blocks, h, ConeBlock.sequence] at hs
  have hl : bs.length = (ConeBlock.sequence 0 p.linearRows (bs.map (·.size))).length := by
    have hs := ConeBlock.sizes_sequence 0 p.linearRows (bs.map (·.size))
    simpa using (congrArg List.length hs).symm
  have ⟨_, hb⟩ := List.append_inj hs hl
  have hb := (List.cons.inj hb).1
  have hi : b.index = bs.length := by
    rw [hb]
    simp
  have ht : b.start = p.linearRows + (bs.map (·.size)).sum := by rw [hb]
  refine ⟨hi, ht, by simp [hc], ?_, by rw [h, hi, List.take_left]⟩
  rw [ht, totalRows_eq, hc, List.sum_append, List.sum_cons]
  omega

end Partition

namespace Problem

variable {α : Type} {p : Problem α}

structure Valid (p : Problem α) : Prop where
  format     : p.matrix.checkFormat = .ok ()
  objective  : p.objective.length = p.variableCount
  rhs        : p.rhs.length = p.rowCount
  cones      : ∀ size ∈ p.partition.cones, 0 < size
  rows       : p.partition.totalRows = p.rowCount
  booleans   : ∀ j ∈ p.booleans, j < p.variableCount
  integers   : ∀ j ∈ p.integers, j < p.variableCount

theorem strayIndex?_eq_none (h : p.strayIndex? = none) :
    (∀ j ∈ p.booleans, j < p.variableCount) ∧ ∀ j ∈ p.integers, j < p.variableCount := by
  simpa [strayIndex?] using h

theorem valid_of_validate (h : p.validate = .ok ()) : p.Valid := by
  unfold validate at h
  split at h
  · cases h
  case h_2 hf =>
    simp only [ite_error_eq_ok_iff, not_not] at h
    have ⟨ho, hr, h⟩ := h
    split at h
    · cases h
    case h_2 hc =>
      have ⟨ht, h⟩ := ite_error_eq_ok_iff.mp h
      split at h
      · cases h
      case h_2 hs =>
        have hn := Option.eq_none_iff_forall_ne_some.mpr fun (set, j) => hs set j
        have ⟨hb, hi⟩ := strayIndex?_eq_none hn
        refine ⟨hf, ho, hr, fun size hm => ?_, not_not.mp ht, hb, hi⟩
        have hn := Option.eq_none_iff_forall_ne_some.mpr hc
        have hz := List.findIdx?_eq_none_iff.mp hn size hm
        exact Nat.pos_of_ne_zero (by simpa using hz)

theorem Valid.exists_columns (h : p.Valid) :
    ∃ cs, p.matrix = .ofColumns p.rowCount cs ∧ cs.length = p.variableCount ∧
      SparseMatrix.Columns.Fit p.rowCount cs := by
  have ⟨cs, hm, hf⟩ := SparseMatrix.exists_ofColumns h.format
  exact ⟨cs, hm, (congrArg SparseMatrix.cols hm).symm, hf⟩

end Problem
end ConicProgram
