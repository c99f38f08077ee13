import Mathlib.Algebra.Order.BigOperators.Group.List
import Mathlib.Algebra.Order.Ring.Nat
import ConicProgram.Problem.Document
import ConicProgram.Proofs.Json.Records
import ConicProgram.Proofs.Problem.WellFormed

namespace ConicProgram

open Json

namespace SparseMatrix

variable {a : SparseMatrix Float}

-- The counts are words of 64 bits, and so is then every index that fits them.
structure Words (a : SparseMatrix Float) : Prop where
  rows    : a.rows < UInt64.size
  cols    : a.cols < UInt64.size
  entries : a.rowIndices.length < UInt64.size

theorem reads_form (hf : a.Formatted) (hw : a.Words) (hb : ∀ x ∈ a.values, ReadsBack x) :
    Reads form.read (form.write a)
      (if ∀ x ∈ a.values, x.isFinite then .ok a else .error .malformed) := by
  have hs := reads_indices fun s hs => (hf.start_le_of_mem hs).trans_lt hw.entries
  have hr := reads_indices fun r hr => (hf.below r hr).trans hw.rows
  exact reads_record (.next ((reads_index hw.rows).map _) <| .next ((reads_index hw.cols).map _) <|
    .next (hs.map _) <| .next (hr.map _) <| .check (reads_floats hb) rfl (.done _)) (by decide)

end SparseMatrix

theorem Partition.reads_form {p : Partition} (hp : p.totalRows < UInt64.size) :
    Reads form.read (form.write p) (.ok p) := by
  rw [totalRows_eq, linearRows] at hp
  have hc := reads_indices fun size hs =>
    (List.le_sum_of_mem hs).trans_lt ((Nat.le_add_left ..).trans_lt hp)
  exact reads_record (.next ((reads_index (by omega)).map _) <|
    .next ((reads_index (by omega)).map _) <| .next (hc.map _) (.done _)) (by decide)

theorem Parameters.reads_form (p : Parameters) : Reads form.read (form.write p) (.ok p) :=
  reads_record (.next ((reads_bool _).map _) <| .next ((reads_bool _).map _) (.done _)) (by decide)

namespace Problem

variable {p : Problem Float}

-- A document has a text for every number of the problem.
structure Finite (p : Problem Float) : Prop where
  objective : ∀ x ∈ p.objective, x.isFinite
  matrix    : ∀ x ∈ p.matrix.values, x.isFinite
  rhs       : ∀ x ∈ p.rhs, x.isFinite

theorem finite_iff : p.Finite ↔
    (∀ x ∈ p.objective, x.isFinite) ∧ (∀ x ∈ p.matrix.values, x.isFinite) ∧
      ∀ x ∈ p.rhs, x.isFinite :=
  ⟨fun h => ⟨h.objective, h.matrix, h.rhs⟩, fun ⟨ho, hm, hr⟩ => ⟨ho, hm, hr⟩⟩

instance : Decidable p.Finite :=
  decidable_of_iff _ finite_iff.symm

def numbers (p : Problem Float) : List Float :=
  p.objective ++ p.matrix.values ++ p.rhs

theorem reads_form (hv : p.Valid) (hw : p.matrix.Words) (hb : ∀ x ∈ p.numbers, ReadsBack x) :
    Reads form.read (form.write p) (if p.Finite then .ok p else .error .malformed) := by
  simp only [numbers, List.mem_append, or_imp, forall_and] at hb
  have ho := reads_floats hb.1.1
  have hm := p.matrix.reads_form (SparseMatrix.formatted_of_checkFormat hv.format) hw hb.1.2
  have hr := reads_floats hb.2
  have hp : p.partition.totalRows < UInt64.size := hv.rows ▸ hw.rows
  have hs := reads_indices fun j hj => (hv.booleans j hj).trans hw.cols
  have hi := reads_indices fun j hj => (hv.integers j hj).trans hw.cols
  -- the first list with a number that is not finite ends the reading
  simp only [finite_iff, ite_and]
  exact reads_record (.check ho rfl <| .check hm rfl <| .check hr rfl <|
    .next ((p.partition.reads_form hp).map _) <| .next (hs.map _) <| .next (hi.map _) <|
    .next (p.parameters.reads_form.map _) (.done _)) (by decide)

theorem ofDocument_toDocument (h : p.validate = .ok ()) (hw : p.matrix.Words)
    (hb : ∀ x ∈ p.numbers, ReadsBack x) :
    ofDocument p.toDocument = if p.Finite then .ok p else .error (.unreadable .malformed) := by
  have hp := Form.parse_text (reads_form (valid_of_validate h) hw hb)
  rw [ofDocument, toDocument, hp]
  by_cases hf : p.Finite
  case pos =>
    rw [if_pos hf, if_pos hf]
    dsimp only
    rw [h]
  case neg => rw [if_neg hf, if_neg hf]

theorem validate_of_ofDocument {document : String} (h : ofDocument document = .ok p) :
    p.validate = .ok () := by
  unfold ofDocument at h
  split at h
  case h_1 => cases h
  case h_2 =>
    split at h
    case h_1 => cases h
    case h_2 hv =>
      cases h
      exact hv

theorem ofBytes_toUTF8 (document : String) : ofBytes document.toUTF8 = ofDocument document := by
  have hu : String.fromUTF8? document.toUTF8 = some document := dif_pos document.isValidUTF8
  rw [ofBytes, hu]

-- What has been written of a valid problem is read back, unless there is a number in it that is not
-- finite, and nothing is ever read but valid problems. Equal numbers are equal bit for bit here: a
-- zero keeps its sign.
theorem ofBytes_toDocument :
    (∀ p : Problem Float, p.validate = .ok () → p.matrix.Words → (∀ x ∈ p.numbers, ReadsBack x) →
      ((∃ q, ofBytes p.toDocument.toUTF8 = .ok q) ↔ p.Finite) ∧
        (p.Finite → ofBytes p.toDocument.toUTF8 = .ok p)) ∧
    ∀ bytes q, ofBytes bytes = .ok q → q.validate = .ok () := by
  refine ⟨fun p hv hw hb => ?_, fun bytes q h => ?_⟩
  case refine_1 =>
    rw [ofBytes_toUTF8, ofDocument_toDocument hv hw hb]
    by_cases hf : p.Finite
    case pos =>
      rw [if_pos hf]
      exact ⟨⟨fun _ => hf, fun _ => ⟨p, rfl⟩⟩, fun _ => rfl⟩
    case neg =>
      rw [if_neg hf]
      exact ⟨⟨nofun, (absurd · hf)⟩, (absurd · hf)⟩
  case refine_2 =>
    unfold ofBytes at h
    split at h
    case h_1 => exact validate_of_ofDocument h
    case h_2 => cases h

-- At most minus zero, at an integer.
def bounded (bound : Float) : Problem Float where
  objective := [2.5]
  matrix := ⟨1, 1, [0, 1], [0], [-2.5]⟩
  rhs := [bound]
  partition := ⟨0, 1, []⟩
  integers := [0]
  parameters := { constraints := false }

theorem ofBytes_toDocument_bounded :
    (bounded (-0.0)).Finite ∧ ofBytes (bounded (-0.0)).toDocument.toUTF8 = .ok (bounded (-0.0)) ∧
      (bounded (-0.0)).validate = .ok () ∧
      ¬∃ q, ofBytes (bounded (1.0 / 0.0)).toDocument.toUTF8 = .ok q := by
  have hw (x : Float) : (bounded x).matrix.Words := by
    have h : 1 < UInt64.size := by decide
    exact ⟨h, h, h⟩
  have hb (x : Float) (hx : ReadsBack x) : ∀ y ∈ [2.5, -2.5, x], ReadsBack y :=
    List.forall_mem_cons.mpr ⟨fun _ => by decide +kernel,
      List.forall_mem_cons.mpr ⟨fun _ => by decide +kernel, List.forall_mem_singleton.mpr hx⟩⟩
  have hf : (bounded (-0.0)).Finite := by decide
  have h := (ofBytes_toDocument.1 (bounded (-0.0)) (by decide) (hw _) (hb _ fun _ => rfl)).2 hf
  refine ⟨hf, h, ofBytes_toDocument.2 _ _ h, fun hq => ?_⟩
  have hi : ¬(1.0 / 0.0 : Float).isFinite := by decide
  have hr := (ofBytes_toDocument.1 (bounded (1.0 / 0.0)) (by decide) (hw _)
    (hb _ (absurd · hi))).1.mp hq
  exact hi (hr.rhs _ (List.mem_cons_self ..))

end Problem
end ConicProgram
