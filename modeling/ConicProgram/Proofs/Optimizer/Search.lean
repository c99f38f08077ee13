import ConicProgram.Proofs.Optimizer.Settling
import ConicProgram.Proofs.Model.Assembly
import ConicProgram.Proofs.Optimizer.Solving

namespace ConicProgram

namespace Search

variable {α σ ω : Type} [Scalar α] {m : Model α} {engine : Engine α ω} {controls : Controls α}
  {discrete : List Nat} {box : List (Bounds α)} {r : Relaxation α} {s s' : Search α}
  {c c' : Context α σ ω}

omit [Scalar α] in
theorem result_decided_iff (s : Search α) :
    s.result.status = .optimal ∨ s.result.status = .infeasible ↔ s.complete := by
  rcases s with ⟨_, _ | _, _, _ | _⟩ <;> simp [result]

omit [Scalar α] in
theorem result_undecided {s : Search α} (h : ¬s.complete) :
    s.result.status = .solution ∨ s.result.status = .noSolutionFound := by
  rcases s with ⟨_, _ | _, _, _ | _⟩ <;> simp [result] at h ⊢

omit [Scalar α] in
theorem result_isSome_iff (s : Search α) :
    s.result.incumbent.isSome ↔ s.result.status = .optimal ∨ s.result.status = .solution := by
  rcases s with ⟨_, _ | _, _, _ | _⟩ <;> simp [result]

theorem visit_cases {v : Visit α}
    (h : (visit m engine controls discrete box s).perform c = (.ok v, c')) :
    (isEmptyBox box controls.integrality ∧ v = .go s) ∨
    ∃ r d, (m.relax engine controls box).perform c = (.ok r, d) ∧
      (r.outcome = .solved ∧ (settle m controls discrete box r s).perform d = (.ok v, c') ∨
        r.outcome = .infeasible ∧ v = .go s ∨
        v = .go { s with complete := false } ∨
        v = .stop .unbounded ∨ v = .stop .rootUnsolved) := by
  unfold visit at h
  split at h
  case isTrue he => exact .inl ⟨he, by cases h; rfl⟩
  case isFalse =>
    have ⟨r, d, hr, h⟩ := Action.perform_bind_eq_ok_iff.mp h
    refine .inr ⟨r, d, hr, ?_⟩
    split at h
    case h_1 ho => exact .inl ⟨ho, h⟩
    case h_2 ho => exact .inr (.inl ⟨ho, by cases h; rfl⟩)
    case h_3 =>
      split at h
      case isFalse => exact .inr (.inr (.inl (by cases h; rfl)))
      case isTrue =>
        split at h
        · exact .inr (.inr (.inr (.inl (by cases h; rfl))))
        · exact .inr (.inr (.inr (.inr (by cases h; rfl))))

theorem stop_of_visit {status : DiscreteStatus}
    (h : (visit m engine controls discrete box s).perform c = (.ok (.stop status), c')) :
    status = .unbounded ∨ status = .rootUnsolved := by
  rcases visit_cases h with ⟨_, h⟩ | ⟨r, d, _, ⟨_, h⟩ | ⟨_, h⟩ | h | h | h⟩ <;> try cases h
  case inr.inl =>
    have ⟨_, _, h, _⟩ := settle_cases h
    cases h
  · exact .inl rfl
  · exact .inr rfl

-- What each visit keeps holds of the search that is returned, wherever the budget runs out, unless
-- the visit to the root has stopped it.
theorem explore_cases {I : Search α → Context α σ ω → Prop} {budget : Nat}
    {found : SearchResult α}
    (hgo : ∀ {s c box pending s' d}, I s c → s.pending = box :: pending →
      (visit m engine controls discrete box { s with pending, nodes := s.nodes + 1 }).perform c =
        (.ok (.go s'), d) → I s' d)
    (h : I s c) (hf : (explore m engine controls discrete budget s).perform c = (.ok found, c')) :
    (∃ s' d, I s' d ∧ (s'.pending = [] ∧ found = s'.result ∨
      s'.pending ≠ [] ∧ found = { s' with complete := false }.result)) ∨
    ∃ status nodes, (status = .unbounded ∨ status = .rootUnsolved) ∧
      found = ⟨status, none, nodes⟩ := by
  induction budget generalizing s c
  case zero =>
    unfold explore at hf
    split at hf <;> cases hf
    case h_1 hp => exact .inl ⟨s, _, h, .inl ⟨hp, rfl⟩⟩
    case h_2 hp => exact .inl ⟨s, _, h, .inr ⟨by simp [hp], rfl⟩⟩
  case succ budget hi =>
    unfold explore at hf
    split at hf
    case h_1 hp =>
      cases hf
      exact .inl ⟨s, _, h, .inl ⟨hp, rfl⟩⟩
    case h_2 box pending hp =>
      have ⟨v, d, hv, hf⟩ := Action.perform_bind_eq_ok_iff.mp hf
      cases v
      case stop status =>
        cases hf
        exact .inr ⟨status, _, stop_of_visit hv, rfl⟩
      case go s' => exact hi (hgo h hp hv) hf

end Search

variable {K σ ω : Type} [Field K] [LinearOrder K] [FloorRing K]

attribute [local instance] Scalar.exact

namespace Model

variable (m : Model K)

-- The point satisfies the rows and the second-order constraints.
def AdmitsPoint (x : List K) : Prop :=
  m.Satisfied fun j => x.getD j 0

-- What the search looks for.
structure Candidate (x : List K) : Prop where
  inBox    : InBox m.columnBounds x
  admits   : m.AdmitsPoint x
  integral : m.IntegralAt x

end Model

-- The reply of an oracle that does not err on the box. Other outcomes promise nothing.
structure Relaxation.Exact (m : Model K) (tolerance : K) (box : List (Bounds K))
    (r : Relaxation K) : Prop where
  infeasible : r.outcome = .infeasible → ∀ x, InBox box x → ¬m.AdmitsPoint x
  inBox      : r.outcome = .solved → InBox box r.primal
  admits     : r.outcome = .solved → m.AdmitsPoint r.primal
  objective  : r.outcome = .solved → m.objectiveAt? r.primal = some r.objective
  least      : r.outcome = .solved → ∀ x v, InBox box x → m.AdmitsPoint x →
    m.objectiveAt? x = some v → r.objective ≤ v
  integral   : r.outcome = .solved → m.NearlyIntegralAt tolerance r.primal → m.IntegralAt r.primal

-- What the status of a finished search promises.
structure SearchResult.Sound (m : Model K) (gap : K) (found : SearchResult K) : Prop where
  infeasible : found.status = .infeasible → ∀ x, ¬m.Candidate x
  incumbent  : found.status = .optimal ∨ found.status = .solution →
    ∃ x, found.incumbent = some x ∧ m.Candidate x
  optimal    : found.status = .optimal → ∃ x v, found.incumbent = some x ∧
    m.objectiveAt? x = some v ∧ ∀ y w, m.Candidate y → m.objectiveAt? y = some w → v - gap ≤ w

namespace Search

-- What holds of a search at every node. Points that no box holds any longer are not worth more than
-- the incumbent by more than the gap.
structure Sound (m : Model K) (gap : K) (s : Search K) : Prop where
  within    : ∀ box ∈ s.pending, ∀ x, InBox box x → InBox m.columnBounds x
  incumbent : ∀ i, s.incumbent = some i →
    m.Candidate i.point ∧ m.objectiveAt? i.point = some i.objective
  covered   : s.complete → ∀ x, m.Candidate x → (∃ box ∈ s.pending, InBox box x) ∨
    ∃ i, s.incumbent = some i ∧ ∀ v, m.objectiveAt? x = some v → i.objective - gap ≤ v

namespace Sound

variable {m : Model K} {gap : K} {s : Search K} {box : List (Bounds K)}
  {pending : List (List (Bounds K))}

theorem start (m : Model K) (gap : K) : Sound m gap { pending := [m.columnBounds] } where
  within := by simp
  incumbent := by simp
  covered _ x hx := .inl ⟨_, List.mem_cons_self .., hx.inBox⟩

-- A box can be closed if the candidates in it are not better than the incumbent allows.
theorem close {nodes : Nat} (h : Sound m gap s) (hp : s.pending = box :: pending)
    (hc : ∀ x, InBox box x → m.Candidate x →
      ∃ i, s.incumbent = some i ∧ ∀ v, m.objectiveAt? x = some v → i.objective - gap ≤ v) :
    Sound m gap { s with pending, nodes } where
  within b hb := h.within b (hp ▸ List.mem_cons_of_mem _ hb)
  incumbent := h.incumbent
  covered hs x hx := by
    rcases h.covered hs x hx with ⟨b, hb, hbx⟩ | hi
    case inr => exact .inr hi
    case inl =>
      rcases List.mem_cons.mp (hp ▸ hb) with rfl | hb
      · exact .inr (hc x hbx hx)
      · exact .inl ⟨b, hb, hbx⟩

-- A box can be left aside if the search is no longer complete.
theorem giveUp {nodes : Nat} (h : Sound m gap s) (hp : s.pending = box :: pending) :
    Sound m gap { s with pending, nodes, complete := false } where
  within b hb := h.within b (hp ▸ List.mem_cons_of_mem _ hb)
  incumbent := h.incumbent
  covered := by simp

-- A box can be split if every candidate in it is in one of the parts.
theorem split {nodes : Nat} {children : List (List (Bounds K))} (h : Sound m gap s)
    (hp : s.pending = box :: pending) (hs : ∀ c ∈ children, ∀ x, InBox c x → InBox box x)
    (hc : ∀ x, InBox box x → m.Candidate x → ∃ c ∈ children, InBox c x) :
    Sound m gap { s with pending := children ++ pending, nodes } where
  within b hb x hx := by
    rcases List.mem_append.mp hb with hb | hb
    · exact h.within box (hp ▸ List.mem_cons_self ..) x (hs b hb x hx)
    · exact h.within b (hp ▸ List.mem_cons_of_mem _ hb) x hx
  incumbent := h.incumbent
  covered hcs x hx := by
    rcases h.covered hcs x hx with ⟨b, hb, hbx⟩ | hi
    case inr => exact .inr hi
    case inl =>
      rcases List.mem_cons.mp (hp ▸ hb) with rfl | hb
      · have ⟨c, hc, hcx⟩ := hc x hbx hx
        exact .inl ⟨c, List.mem_append_left _ hc, hcx⟩
      · exact .inl ⟨b, List.mem_append_right _ hb, hbx⟩

variable [IsStrictOrderedRing K]

-- A better candidate may take the place of the incumbent.
theorem improve {point : List K} {objective : K} (h : Sound m gap s) (hx : m.Candidate point)
    (ho : m.objectiveAt? point = some objective) (hi : s.improves objective) :
    Sound m gap { s with incumbent := some ⟨objective, point⟩ } where
  within := h.within
  incumbent := by
    intro i hi
    cases hi
    exact ⟨hx, ho⟩
  covered hc x hx := by
    rcases h.covered hc x hx with hb | ⟨i, hi', hv⟩
    case inl => exact .inl hb
    case inr =>
      have hlt : objective < i.objective := by simpa [improves, hi'] using hi
      exact .inr ⟨_, rfl, fun v hx => by linarith [hv v hx]⟩

end Sound

variable [IsStrictOrderedRing K] {m : Model K} {engine : Engine K ω} {controls : Controls K}
  {s s' : Search K} {c c' : Context K σ ω} {box : List (Bounds K)}
  {pending : List (List (Bounds K))}

theorem not_inBox_of_isEmptyBox {tolerance : K} (ht : 0 < tolerance)
    (h : isEmptyBox box tolerance) (x : List K) : ¬InBox box x := by
  intro hx
  have ⟨b, hb, he⟩ := List.any_eq_true.mp h
  have ⟨j, hj, hb⟩ := List.mem_iff_getElem.mp hb
  have hl : j < x.length := hx.length_eq ▸ hj
  have ⟨h₁, h₂⟩ := hx.within (List.getElem?_eq_some_iff.mpr ⟨hj, hb⟩) (List.getElem?_eq_getElem hl)
  have he : b.upper + tolerance < b.lower := by simpa using he
  linarith

omit [IsStrictOrderedRing K] in
theorem exists_incumbent_of_isBounded {gap objective : K} (h : s.isBounded gap objective) :
    ∃ i, s.incumbent = some i ∧ i.objective - gap ≤ objective := by
  cases hi : s.incumbent <;> simp_all [isBounded]

omit [IsStrictOrderedRing K] in
theorem exists_incumbent_of_not_improves {objective : K} (h : ¬s.improves objective) :
    ∃ i, s.incumbent = some i ∧ i.objective ≤ objective := by
  cases hi : s.incumbent <;> simp_all [improves]

-- The node of a solved relaxation.
theorem Sound.settle {r : Relaxation K} {nodes : Nat} (hg : 0 < controls.gapAbsolute)
    (h : Sound m controls.gapAbsolute s) (hp : s.pending = box :: pending)
    (he : r.Exact m controls.integrality box) (hr : r.outcome = .solved)
    (hs : (settle m controls m.discreteColumns box r { s with pending, nodes }).perform c =
      (.ok (.go s'), c')) :
    Sound m controls.gapAbsolute s' := by
  -- What the relaxation promises of the candidates in the box.
  have hl : ∀ x, InBox box x → m.Candidate x → ∀ v, m.objectiveAt? x = some v → r.objective ≤ v :=
    fun x hx hc v hv => he.least hr x v hx hc.admits hv
  obtain ⟨_, _, hv, hs⟩ := settle_cases hs
  cases hv
  cases hs
  case bounded hb =>
    refine h.close hp fun x hx hc => ?_
    obtain ⟨i, hi, hb⟩ := exists_incumbent_of_isBounded hb
    exact ⟨i, hi, fun v hv => hb.trans (hl x hx hc v hv)⟩
  case split hb =>
    obtain ⟨hd, hv⟩ := Branch.select?_some hb
    refine h.split hp (fun _ hc x hx => Branch.inBox_of_child (he.inBox hr) hv hc hx) ?_
    intro x hx hc
    obtain ⟨z, hz⟩ := hc.integral _ hd
    exact Branch.exists_child hx hz
  case integral hn hpt ho =>
    have hint := he.integral hr (Branch.select?_none hn)
    have hx := h.within box (hp ▸ List.mem_cons_self ..) r.primal (he.inBox hr)
    cases integralPoint?_eq hint (by simp [hx.length_eq, Model.columnBounds, Model.columnCount]) hpt
    cases he.objective hr ▸ ho
    unfold offered
    split
    case isTrue hi =>
      have hs := h.improve ⟨hx, he.admits hr, hint⟩ (he.objective hr) hi
      exact hs.close hp fun x hx hc => ⟨_, rfl, fun v hv => by linarith [hl x hx hc v hv]⟩
    case isFalse hi =>
      obtain ⟨i, hi, hb⟩ := exists_incumbent_of_not_improves hi
      exact h.close hp fun x hx hc => ⟨i, hi, fun v hv => by linarith [hl x hx hc v hv]⟩

-- Reached from a start by visits, each of which leaves the search at another stage.
inductive Reaches (m : Model K) (engine : Engine K ω) (controls : Controls K) :
    Search K × Context K σ ω → Search K × Context K σ ω → Prop
  | refl  : Reaches m engine controls a a
  | visit {a s c box pending s' c'} (prior : Reaches m engine controls a (s, c))
      (next : s.pending = box :: pending)
      (run : (visit m engine controls m.discreteColumns box
        { s with pending, nodes := s.nodes + 1 }).perform c = (.ok (.go s'), c')) :
    Reaches m engine controls a (s', c')

omit [IsStrictOrderedRing K] in
-- A search whose first visit closes the one box that there is goes no further.
theorem Reaches.eq_or_pending_eq_nil {a b : Search K × Context K Unit ω} {s s' : Search K}
    {box : List (Bounds K)} (h : Reaches m engine controls a b) (ha : a.1 = s)
    (hs : s.pending = [box])
    (hv : (Search.visit m engine controls m.discreteColumns box
      { s with pending := [], nodes := s.nodes + 1 } : Action K Unit ω _ _).Yields () (.go s') ())
    (hp : s'.pending = []) : b.1 = s ∨ b.1.pending = [] := by
  induction h
  case refl => exact .inl ha
  case visit t c _ _ t' c' prior next run hi =>
    rcases hi with ht | ht
    case inr => cases ht.symm.trans next
    case inl =>
      cases ht
      cases hs.symm.trans next
      have ⟨_, hv⟩ := hv c.outside c.log
      cases hv.symm.trans run
      exact .inr hp

-- Every box that is asked about on the way is answered without error.
def Honest (m : Model K) (engine : Engine K ω) (controls : Controls K)
    (a : Search K × Context K σ ω) : Prop :=
  ∀ {s c box pending r c'}, Reaches m engine controls a (s, c) → s.pending = box :: pending →
    (m.relax engine controls box).perform c = (.ok r, c') → r.Exact m controls.integrality box

omit [IsStrictOrderedRing K] in
-- A search says only what it has made sure of: with boxes left it has to be incomplete.
theorem Sound.result {gap : K} (h : Sound m gap s) (hp : s.complete → s.pending = []) :
    s.result.Sound m gap where
  infeasible hs x hx := by
    cases hi : s.incumbent <;> cases hc : s.complete <;> simp [Search.result, hi, hc] at hs
    rcases h.covered hc x hx with ⟨b, hb, _⟩ | ⟨i, hi', _⟩
    · simp [hp hc] at hb
    · simp [hi] at hi'
  incumbent hs := by
    cases hi : s.incumbent
    case none => cases hc : s.complete <;> simp [Search.result, hi, hc] at hs
    case some i => exact ⟨i.point, by simp [Search.result, hi], (h.incumbent i hi).1⟩
  optimal hs := by
    cases hi : s.incumbent <;> cases hc : s.complete <;> simp [Search.result, hi, hc] at hs
    case some.true i =>
      refine ⟨i.point, i.objective, by simp [Search.result, hi], (h.incumbent i hi).2, ?_⟩
      intro y w hy hw
      rcases h.covered hc y hy with ⟨b, hb, _⟩ | ⟨i', hi', hv⟩
      · simp [hp hc] at hb
      · cases hi.symm.trans hi'
        exact hv w hw

-- One visit keeps what holds of the search.
theorem Sound.visit (hg : 0 < controls.gapAbsolute) (ht : 0 < controls.integrality)
    (h : Sound m controls.gapAbsolute s) (hp : s.pending = box :: pending)
    (he : ∀ {r d}, (m.relax engine controls box).perform c = (.ok r, d) →
      r.Exact m controls.integrality box)
    (hv : (visit m engine controls m.discreteColumns box
      { s with pending, nodes := s.nodes + 1 }).perform c = (.ok (.go s'), c')) :
    Sound m controls.gapAbsolute s' := by
  rcases visit_cases hv with ⟨hb, hs⟩ | ⟨r, d, hr, hv⟩
  case inl =>
    cases hs
    exact h.close hp fun x hx => absurd hx (not_inBox_of_isEmptyBox ht hb x)
  case inr =>
    rcases hv with ⟨ho, hs⟩ | ⟨ho, hs⟩ | hs | hs | hs <;> try cases hs
    · exact h.settle hg hp (he hr) ho hs
    · exact h.close hp fun x hx hc => absurd hc.admits ((he hr).infeasible ho x hx)
    · exact h.giveUp hp

-- A run of visits keeps it, and so it holds at the end, wherever the budget runs out.
theorem Sound.explore {a : Search K × Context K σ ω} {budget : Nat} {found : SearchResult K}
    (hg : 0 < controls.gapAbsolute) (ht : 0 < controls.integrality)
    (ha : Honest m engine controls a) (hr : Reaches m engine controls a (s, c))
    (h : Sound m controls.gapAbsolute s)
    (hf : (explore m engine controls m.discreteColumns budget s).perform c = (.ok found, c')) :
    found.Sound m controls.gapAbsolute := by
  have hgo {s c box pending s' d}
      (h : Reaches m engine controls a (s, c) ∧ Sound m controls.gapAbsolute s)
      (hp : s.pending = box :: pending)
      (hv : (Search.visit m engine controls m.discreteColumns box
        { s with pending, nodes := s.nodes + 1 }).perform c = (.ok (.go s'), d)) :
      Reaches m engine controls a (s', d) ∧ Sound m controls.gapAbsolute s' :=
    ⟨h.1.visit hp hv, h.2.visit hg ht hp (ha h.1 hp) hv⟩
  rcases explore_cases hgo ⟨hr, h⟩ hf with ⟨s', d, ⟨_, h⟩, ⟨hp, rfl⟩ | ⟨hp, rfl⟩⟩ |
    ⟨status, nodes, hs, rfl⟩
  · exact h.result fun _ => hp
  · have ⟨box, pending, hp⟩ := List.exists_cons_of_ne_nil hp
    exact (h.giveUp hp).result (by simp)
  · rcases hs with rfl | rfl <;> constructor <;> simp

end Search

-- Branch and bound over relaxations that do not err: an infeasible model has no candidate, an
-- incumbent is a candidate, and no candidate beats an optimal one by more than the gap.
theorem Model.search_sound [IsStrictOrderedRing K] {m : Model K} {engine : Engine K ω}
    {controls : Controls K} {c c' : Context K σ ω} {found : SearchResult K}
    (hg : 0 < controls.gapAbsolute) (ht : 0 < controls.integrality)
    (ho : Search.Honest m engine controls ({ pending := [m.columnBounds] }, c))
    (hf : (m.search engine controls).perform c = (.ok found, c')) :
    found.Sound m controls.gapAbsolute :=
  (Search.Sound.start m _).explore hg ht ho .refl hf

section Capped

-- One integer column of at most two, as large as it can be, and an engine that knows the answer.
def Model.capped : Model ℚ where
  rows := [{ sense := .atMost, rhs := 2, coefficients := .ofList [(0, 1)] }]
  columns := [⟨⟨0, 4⟩, .integer⟩]
  objective := [-1]
  cones := []

def Engine.capped : Engine ℚ Unit :=
  fun _ => pure (.ok ⟨.solved, [2], [], -2⟩)

def Controls.capped : Controls ℚ :=
  { Controls.standard with maxNodes := 1, integrality := 1 / 4, gapAbsolute := 1 / 4 }

theorem Model.capped_columnBounds : capped.columnBounds = [⟨0, 4⟩] :=
  rfl

theorem Model.capped_admitsPoint_iff {v : ℚ} : capped.AdmitsPoint [v] ↔ v ≤ 2 := by
  have hv : Row.value ⟨.atMost, 2, .ofList [(0, 1)]⟩ (fun j => [v].getD j 0) = v :=
    (zero_add _).trans (one_mul v)
  simp only [AdmitsPoint, Satisfied, capped, List.forall_mem_singleton, Row.Holds, hv]
  exact and_iff_left nofun

theorem Model.capped_objectiveAt? (v : ℚ) : capped.objectiveAt? [v] = some (-v) := by
  simp [objectiveAt?, capped, columnCount, Vector.dot?]

theorem Model.capped_scoped : capped.Scoped where
  rows := by decide
  cones := nofun
  terms := nofun

theorem Model.capped_exact :
    Relaxation.Exact .capped Controls.capped.integrality capped.columnBounds
      ⟨.solved, [2], [], -2⟩ where
  infeasible := nofun
  inBox _ := .mk rfl fun {j b v} hb hv => by
    rw [capped_columnBounds] at hb
    cases j
    case zero => cases hb; cases hv; norm_num
    case succ j => cases hb
  admits _ := capped_admitsPoint_iff.mpr le_rfl
  objective _ := capped_objectiveAt? 2
  least _ x v hx ha hv := by
    have ⟨w, hw⟩ := List.length_eq_one_iff.mp hx.length_eq
    rw [hw, capped_objectiveAt?] at hv
    cases hv
    exact neg_le_neg (capped_admitsPoint_iff.mp (hw ▸ ha))
  integral _ _ j hj := by
    cases List.mem_singleton.mp hj
    exact ⟨2, rfl⟩

theorem Model.yields_relax_capped :
    (capped.relax .capped .capped capped.columnBounds : Action ℚ Unit Unit _ _).Yields ()
      ⟨.solved, [2], [], -2⟩ () := by
  have ⟨a, ha, _⟩ : ∃ a, capped.assemble? capped.columnBounds = some a ∧ _ :=
    capped_scoped.exists_assemble? le_rfl
  exact capped.yields_relax (fun _ => rfl) ha nofun .capped ()

theorem Search.yields_visit_capped :
    (visit .capped .capped .capped Model.capped.discreteColumns Model.capped.columnBounds
      { pending := [], nodes := 1 } : Action ℚ Unit Unit _ _).Yields ()
        (.go { pending := [], nodes := 1, incumbent := some ⟨-2, [2]⟩ }) () := by
  have hd : Model.capped.discreteColumns = [0] := rfl
  have he : isEmptyBox Model.capped.columnBounds Controls.capped.integrality = false := by
    norm_num [isEmptyBox, Model.capped_columnBounds, Controls.capped]
  have hs : Branch.select? [2] [0] Controls.capped.integrality = some none := by
    have hf : Scalar.floor (2 : ℚ) = 2 := by simp [Scalar.exact_floor]
    norm_num [Branch.select?, Branch.fractionality, hf, Controls.capped]
  have hp : integralPoint? .capped [0] [2] = some [2] := by
    have hr : Scalar.round (2 : ℚ) = 2 := Scalar.exact_round_intCast 2
    simp [integralPoint?, Model.capped, Model.columnCount, hr, guard]
  unfold visit
  rw [he, hd]
  refine Model.yields_relax_capped.bind ?_
  refine .bind (Action.yields_ofOption hs) ?_
  refine .bind (Action.yields_ofOption hp) ?_
  refine .bind (Action.yields_ofOption (Model.capped_objectiveAt? 2)) ?_
  exact .bind (Action.yields_record _) Action.yields_pure

theorem Search.honest_capped (c : Context ℚ Unit Unit) :
    Honest .capped .capped .capped ({ pending := [Model.capped.columnBounds] }, c) := by
  intro s d box pending r d' h hp hr
  rcases h.eq_or_pending_eq_nil rfl rfl yields_visit_capped rfl with hs | hs
  case inr => cases hs.symm.trans hp
  case inl =>
    cases hs
    cases hp
    have ⟨_, hy⟩ := Model.yields_relax_capped d.outside d.log
    cases hy.symm.trans hr
    exact Model.capped_exact

theorem Search.yields_search_capped :
    (Model.capped.search .capped .capped : Action ℚ Unit Unit _ _).Yields ()
      ⟨.optimal, some [2], 1⟩ () :=
  .bind yields_visit_capped Action.yields_pure

theorem Model.search_capped : ∃ c', (Model.capped.search .capped .capped).perform ⟨(), (), []⟩ =
    (.ok ⟨.optimal, some [2], 1⟩, c') ∧
      SearchResult.Sound .capped Controls.capped.gapAbsolute ⟨.optimal, some [2], 1⟩ := by
  have ⟨_, hf⟩ := Search.yields_search_capped () []
  refine ⟨_, hf, search_sound ?_ ?_ (Search.honest_capped _) hf⟩ <;> norm_num [Controls.capped]

end Capped
end ConicProgram
