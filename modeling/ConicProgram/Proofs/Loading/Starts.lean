import ConicProgram.Proofs.Action
import ConicProgram.Proofs.Loading.Linear

namespace ConicProgram

section Cold

variable {α σ τ ω : Type} [Scalar α] {p : Problem α} {d : LoadData α}

-- A problem that is found valid is loaded with the data of its linear rows.
theorem Instance.coldLoad_of_linearData (hv : p.validate = .ok ()) (hd : p.linearData = .ok d)
    (opt : Optimizer α σ ω) (mode : ConeMode) :
    (coldLoad opt p mode : Action α τ ω (SolveError α) (Instance σ)) = do
      let start := blank opt.fresh mode p.variableCount p.partition.linearRows
      return (← (fill opt p d).startOn start).2 := by
  rw [coldLoad, hv, hd]
  simp only [Attempt.ofExcept, Attempt.mapCause, Action.ofAttempt, pure_bind]

end Cold

namespace Starts

-- The start array counts the coordinates below each place, so that their order does not show, and
-- a coordinate beside the axis is reported where the first one stands. Indices are machine words,
-- which bounds the axis.
theorem ofCoordinates_counts {α σ τ ω : Type} [Scalar α] (coords : List Int) (n : Nat)
    (hn : n ≤ wordSize) :
    ((∃ starts, ofCoordinates coords n = .ok starts) ↔ ∀ c ∈ coords, 0 ≤ c ∧ c < n) ∧
    (∀ e, ofCoordinates coords n = .error e ↔
      ∃ (before : List Int) (c : Int) (after : List Int), coords = before ++ c :: after ∧
        (∀ d ∈ before, 0 ≤ d ∧ d < n) ∧ ¬(0 ≤ c ∧ c < n) ∧
        e = if c < 0 ∨ (wordSize : Int) ≤ c then .negative before.length
          else .outOfRange before.length c.toNat n) ∧
    (∀ starts, ofCoordinates coords n = .ok starts →
      starts.length = n + 1 ∧
      (∀ i ≤ n, starts[i]? = some (coords.countP (· < (i : Int)))) ∧
      (∀ other : List Int, other.Perm coords → ofCoordinates other n = .ok starts) ∧
      starts.Pairwise (· ≤ ·) ∧ starts.getLast? = some coords.length) ∧
    (∀ a : SparseMatrix α, a.checkFormat = .ok () → a.cols = n →
      ∃ indices, a.colIndices? = some indices ∧
        ofCoordinates (indices.map Int.ofNat) n = .ok a.starts) ∧
    ∀ p : Problem α, p.validate = .ok () → p.variableCount = n →
      ∃ linear d, p.matrix.selectRows? ⟨0, p.partition.linearRows⟩ = some linear ∧
        p.linearData = .ok d ∧ d.starts = linear.starts ∧
        ∀ (opt : Optimizer α σ ω) (mode : ConeMode),
          (Instance.coldLoad opt p mode : Action α τ ω (SolveError α) (Instance σ)) = do
            let start := Instance.blank opt.fresh mode n p.partition.linearRows
            return (← (Instance.fill opt p d).startOn start).2 := by
  refine ⟨⟨fun ⟨starts, hs⟩ => ?_, fun hc => ?_⟩, fun e => ofCoordinates_eq_error_iff hn,
    fun starts hs => ?_, fun a ha hc => ?_, fun p hv hp => ?_⟩
  · exact ((ofCoordinates_eq_ok_iff hn).mp hs).onAxis
  · exact ⟨_, ofCoordinates_eq_ok hn hc⟩
  · have h := (ofCoordinates_eq_ok_iff hn).mp hs
    exact ⟨h.length, h.below, fun other hp => (ofCoordinates_eq_ok_iff hn).mpr (h.perm hp),
      h.pairwise, h.getLast?⟩
  · subst hc
    exact SparseMatrix.exists_colIndices? ha hn
  · subst hp
    have ⟨linear, hl, _, hd⟩ := (Problem.valid_of_validate hv).exists_linearData hn
    exact ⟨linear, _, hl, hd, rfl, Instance.coldLoad_of_linearData hv hd⟩

-- The linear row has entries in the third and the fourth column, and no row has any in the second
-- and the last one.
def gappy : Problem Float where
  objective := [1, 1, 1, 1, 1]
  matrix := {
    rows := 2
    cols := 5
    starts := [0, 1, 1, 3, 4, 4]
    rowIndices := [1, 0, 1, 0]
    values := [1, 2, 3, 4] }
  rhs := [1, 1]
  partition := ⟨1, 0, [1]⟩

theorem ofCoordinates_counts_gappy :
    5 ≤ wordSize ∧ ofCoordinates [2, -1, 7] 5 = .error (.negative 1) ∧
    ∃ starts indices linear d, ofCoordinates [2, 0, 3, 2] 5 = .ok starts ∧ starts[3]? = some 3 ∧
      ofCoordinates [0, 2, 2, 3] 5 = .ok starts ∧
      gappy.matrix.colIndices? = some indices ∧
      ofCoordinates (indices.map Int.ofNat) 5 = .ok gappy.matrix.starts ∧
      gappy.matrix.selectRows? ⟨0, 1⟩ = some linear ∧ gappy.linearData = .ok d ∧
      d.starts = linear.starts := by
  have hn : 5 ≤ wordSize := by decide
  have h (coords : List Int) :=
    ofCoordinates_counts (α := Float) (σ := Unit) (τ := Unit) (ω := Unit) coords 5 hn
  have ⟨hok, _, hstarts, hmatrix, hproblem⟩ := h [2, 0, 3, 2]
  have ⟨starts, hs⟩ := hok.mpr (by decide)
  have ⟨_, hbelow, hperm, _⟩ := hstarts starts hs
  have ⟨indices, hi, hsi⟩ := hmatrix gappy.matrix (by decide) rfl
  have ⟨linear, d, hl, hd, hds, _⟩ := hproblem gappy rfl rfl
  exact ⟨hn, ((h [2, -1, 7]).2.1 _).mpr ⟨[2], -1, [7], rfl, by decide, by decide, rfl⟩,
    starts, indices, linear, d, hs, hbelow 3 (by decide), hperm _ (by decide), hi, hsi, hl, hd,
    hds⟩

end Starts
end ConicProgram
