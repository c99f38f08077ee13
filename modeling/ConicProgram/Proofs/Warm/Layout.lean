import ConicProgram.Proofs.Loading.Canonical
import ConicProgram.Proofs.Loading.Cold
import ConicProgram.Proofs.Warm.Plan

namespace ConicProgram

section Sequence

namespace ConeBlock

variable {index start k i : Nat} {sizes : List Nat} {size : Nat}

theorem getElem?_sequence : (sequence index start sizes)[k]? =
    sizes[k]?.map fun size => ⟨index + k, start + (sizes.take k).sum, size⟩ := by
  induction sizes generalizing index start k
  case nil => simp [sequence]
  case cons size sizes hi =>
    cases k
    case zero => simp [sequence]
    case succ k =>
      rw [sequence, List.getElem?_cons_succ, List.getElem?_cons_succ, hi]
      simp [Nat.add_assoc, Nat.add_comm 1]

def origins (bs : List ConeBlock) : List ColumnOrigin :=
  bs.flatMap fun b => (List.range b.size).map (.cone b.index)

theorem origins_sequence_cons : origins (sequence index start (size :: sizes)) =
    (List.range size).map (.cone index) ++ origins (sequence (index + 1) (start + size) sizes) := by
  rw [origins, sequence, List.flatMap_cons]
  rfl

theorem getElem?_origins (index start : Nat) (hs : sizes[k]? = some size) (hi : i < size) :
    (origins (sequence index start sizes))[(sizes.take k).sum + i]? =
      some (.cone (index + k) i) := by
  induction sizes generalizing index start k
  case nil => cases hs
  case cons first sizes ih =>
    rw [origins_sequence_cons]
    cases k
    case zero =>
      cases hs
      rw [List.getElem?_append_left (by simpa using hi)]
      simp [hi]
    case succ k =>
      have ih := ih (index + 1) (start + first) hs
      have hp : ((first :: sizes).take (k + 1)).sum + i = first + ((sizes.take k).sum + i) := by
        simp [Nat.add_assoc]
      rw [hp, List.getElem?_append_right (by simp)]
      simpa [Nat.add_assoc, Nat.add_comm 1] using ih

end ConeBlock
end Sequence

section Members

-- The places at which the columns of a cone stand, counted from `place` on.
def ColumnOrigin.placesOf (cone place : Nat) (os : List ColumnOrigin) : List Nat :=
  (os.zipIdx place).filterMap fun (o, j) => match o with
    | .cone c _ => if c = cone then some j else none
    | .structural _ => none

namespace ColumnOrigin

variable {cone place : Nat} {os os' : List ColumnOrigin}

theorem placesOf_append : placesOf cone place (os ++ os') =
    placesOf cone place os ++ placesOf cone (place + os.length) os' := by
  rw [placesOf, List.zipIdx_append, List.filterMap_append]
  rfl

theorem placesOf_structural (js : List Nat) : placesOf cone place (js.map .structural) = [] := by
  rw [placesOf, List.filterMap_eq_nil_iff]
  intro ⟨o, j⟩ ho
  have ⟨_, _, h⟩ := List.mem_map.mp (List.fst_mem_of_mem_zipIdx ho)
  cases h
  rfl

theorem placesOf_cone (c : Nat) (is : List Nat) : placesOf cone place (is.map (.cone c)) =
    if c = cone then List.range' place is.length else [] := by
  induction is generalizing place
  case nil => simp [placesOf]
  case cons i is hi =>
    have hc := @hi (place + 1)
    unfold placesOf at hc ⊢
    rw [List.map_cons, List.zipIdx_cons]
    by_cases he : c = cone
    case pos => simpa [he, List.range'_succ] using hc
    case neg => simpa [he] using hc

theorem placesOf_sequence_of_lt {index start : Nat} (sizes : List Nat) (h : cone < index) :
    placesOf cone place (ConeBlock.origins (ConeBlock.sequence index start sizes)) = [] := by
  induction sizes generalizing index start place
  case nil => rfl
  case cons size sizes hi =>
    rw [ConeBlock.origins_sequence_cons, placesOf_append, placesOf_cone, if_neg h.ne']
    exact hi (h.trans (Nat.lt_succ_self _))

-- The columns of each cone stand one behind the other, behind those of the cones before.
theorem placesOf_sequence (index start place : Nat) {k size : Nat} {sizes : List Nat}
    (hs : sizes[k]? = some size) :
    placesOf (index + k) place (ConeBlock.origins (ConeBlock.sequence index start sizes)) =
      List.range' (place + (sizes.take k).sum) size := by
  induction sizes generalizing index start k place
  case nil => cases hs
  case cons first sizes hi =>
    rw [ConeBlock.origins_sequence_cons, placesOf_append, placesOf_cone]
    cases k
    case zero =>
      cases hs
      rw [Nat.add_zero, if_pos rfl, placesOf_sequence_of_lt sizes (Nat.lt_succ_self index)]
      simp
    case succ k =>
      have hi := hi (index + 1) (start + first) (place + first) hs
      rw [if_neg (Nat.ne_of_lt (Nat.lt_add_of_pos_right k.succ_pos)), List.nil_append]
      simpa [Nat.add_assoc, Nat.add_comm 1, Nat.add_left_comm] using hi

end ColumnOrigin
end Members

variable {α ω : Type} [Scalar α] {p : Problem α} {mode : ConeMode}

namespace Model

variable {m n : Model α} {w : Write α}

theorem eq_put_of_write (h : m.write w = .ok n) : n = m.put w := by
  cases w
  case objective j v =>
    have ⟨_, _, h⟩ := Attempt.bind_eq_ok_iff.mp h
    have ⟨xs, hxs, h⟩ := Attempt.bind_eq_ok_iff.mp h
    cases h
    unfold replaced at hxs
    split at hxs <;> cases hxs
    rfl
  case coefficient i j v =>
    have ⟨_, _, h⟩ := Attempt.bind_eq_ok_iff.mp h
    have ⟨_, _, h⟩ := Attempt.bind_eq_ok_iff.mp h
    cases h
    rfl
  all_goals
    have ⟨_, _, h⟩ := Attempt.bind_eq_ok_iff.mp h
    cases h
    rfl

structure SameCounts (m n : Model α) : Prop where
  rowCount    : n.rowCount = m.rowCount
  columnCount : n.columnCount = m.columnCount
  cones       : n.cones = m.cones

theorem sameCounts_writeAll (ws : List (Write α)) : m.SameCounts (m.writeAll ws).2 := by
  induction ws generalizing m
  case nil => exact ⟨rfl, rfl, rfl⟩
  case cons w ws hi =>
    rw [writeAll]
    cases hw : m.write w
    case error => exact ⟨rfl, rfl, rfl⟩
    case ok n =>
      have h := hi (m := n)
      cases eq_put_of_write hw
      exact ⟨h.rowCount.trans rowCount_put, h.columnCount.trans columnCount_put,
        h.cones.trans cones_put⟩

end Model

-- Where the rows of a cone begin, and those of the cone before end.
def Partition.coneStart (q : Partition) (k : Nat) : Nat :=
  q.linearRows + (q.cones.take k).sum

theorem Partition.getElem?_blocks (q : Partition) (k : Nat) :
    q.blocks[k]? = q.cones[k]?.map fun size => ⟨k, q.coneStart k, size⟩ := by
  simp only [blocks, ConeBlock.getElem?_sequence, Nat.zero_add, coneStart]

namespace Instance

variable {s : Instance (ReferenceOptimizer α)}

-- One record for each cone. The rows of the cones stand one behind the other, behind the linear
-- ones, and end where the problem ends.
structure Records (s : Instance (ReferenceOptimizer α)) (p : Problem α) : Prop where
  length : s.cones.length = p.partition.cones.length
  index  : ∀ (k : Nat) (r : ConeRecord), s.cones[k]? = some r → r.index = k
  source : ∀ (k : Nat) (r : ConeRecord), s.cones[k]? = some r →
    r.source = ⟨p.partition.coneStart k, p.partition.coneStart (k + 1)⟩
  size   : ∀ (k : Nat) (r : ConeRecord), s.cones[k]? = some r →
    p.partition.cones[k]? = some r.size
  stop   : p.partition.coneStart p.partition.cones.length = p.rowCount

-- Each cone has columns of its own, which its rows tie to the slacks. A constraint is there only
-- for more than one row, so that constraints are counted apart from cones.
structure Tied (s : Instance (ReferenceOptimizer α)) (p : Problem α) : Prop extends
    s.Records p where
  rowCount    : s.optimizer.rowCount = p.rowCount
  columnCount : s.optimizer.columnCount =
    p.variableCount + (p.rowCount - p.partition.linearRows)
  coneCount   : s.optimizer.coneCount = (p.partition.cones.filter (1 < ·)).length
  tableLength : s.columnCount = s.optimizer.columnCount
  rows        : ∀ r ∈ s.cones, r.rows = r.source
  columns     : ∀ r ∈ s.cones,
    r.columns.start + p.partition.linearRows = r.source.start + p.variableCount ∧
      r.columns.stop + p.partition.linearRows = r.source.stop + p.variableCount
  coneColumns : ∀ (k : Nat) (r : ConeRecord), s.cones[k]? = some r →
    s.columns.coneColumns k = r.columns.toList
  cone        : ∀ (k : Nat) (r : ConeRecord) (i : Nat), s.cones[k]? = some r → i < r.size →
    s.columns.origin? (r.columns.start + i) = some (.cone k i)
  structural  : ∀ j < p.variableCount, s.columns.origin? j = some (.structural j)
  constraint  : ∀ (k : Nat) (r : ConeRecord), s.cones[k]? = some r → r.constraint =
    if 1 < r.size then some ((p.partition.cones.take k).filter (1 < ·)).length else none
  realizedRow : ∀ i, s.realizedRow? i = if i < p.rowCount then some i else none

-- Only the linear rows are rows, and each cone is a constraint on the variables.
structure Folded (s : Instance (ReferenceOptimizer α)) (p : Problem α) : Prop extends
    s.Records p where
  rowCount    : s.optimizer.rowCount = p.partition.linearRows
  columnCount : s.optimizer.columnCount = p.variableCount
  coneCount   : s.optimizer.coneCount = p.partition.cones.length
  tableLength : s.columnCount = s.optimizer.columnCount
  structural  : ∀ j < p.variableCount, s.columns.origin? j = some (.structural j)
  constraint  : ∀ (k : Nat) (r : ConeRecord), s.cones[k]? = some r → r.constraint = some k
  realizedRow : ∀ i, s.realizedRow? i = if i < p.partition.linearRows then some i else none

def LaidOut (s : Instance (ReferenceOptimizer α)) (p : Problem α) : ConeMode → Prop
  | .auxiliary => s.Tied p
  | .substituted => s.Folded p

-- All but the numbers and the kinds of the columns is as it was loaded.
structure Sited (s : Instance (ReferenceOptimizer α)) (p : Problem α) (mode : ConeMode) :
    Prop where
  layout      : s = { p.loadedInstance mode with optimizer := s.optimizer }
  loaded      : s.optimizer.model.isSome
  rowCount    : s.optimizer.rowCount = (p.loaded mode).rowCount
  columnCount : s.optimizer.columnCount = (p.loaded mode).columnCount
  coneCount   : s.optimizer.coneCount = (p.loaded mode).cones.length

theorem sited_loadedInstance (p : Problem α) (mode : ConeMode) :
    (p.loadedInstance mode).Sited p mode :=
  ⟨rfl, rfl, rfl, rfl, rfl⟩

end Instance

namespace Problem

theorem length_cones_auxiliary (bs : List ConeBlock) :
    (p.loadedWith .auxiliary bs).cones.length = ((bs.map (·.size)).filter (1 < ·)).length := by
  have hb (b : ConeBlock) : (if b.size ≤ 1 then [] else
      b.constraint (α := α) (b.rows.toList.map fun i => .ofColumn (p.slackColumn i))).length =
        if 1 < b.size then 1 else 0 := by
    by_cases h : b.size ≤ 1
    case pos => simp [h]
    case neg =>
      rw [if_neg h, if_pos (by omega), ConeBlock.length_constraint, List.length_map,
        length_toList_rows]
      omega
  induction bs
  case nil => rfl
  case cons b bs hi =>
    simp only [loadedWith, List.flatMap_cons, List.length_append, hb, List.map_cons,
      List.filter_cons] at hi ⊢
    rw [hi]
    by_cases h : 1 < b.size <;> simp [h, Nat.add_comm]

theorem length_cones_substituted {bs : List ConeBlock} (h : ∀ b ∈ bs, 0 < b.size) :
    (p.loadedWith .substituted bs).cones.length = bs.length := by
  induction bs
  case nil => rfl
  case cons b bs hi =>
    have ⟨hb, hbs⟩ := List.forall_mem_cons.mp h
    have hc : (b.constraint (b.rows.toList.map p.slack)).length = 1 := by
      rw [ConeBlock.length_constraint, List.length_map, length_toList_rows]
      omega
    have hi := hi hbs
    simp only [loadedWith, List.flatMap_cons, List.length_append, hc, List.length_cons] at hi ⊢
    rw [hi, Nat.add_comm]

end Problem

namespace Instance

variable {s : Instance (ReferenceOptimizer α)}

theorem Sited.exists_record (h : s.Sited p mode) {k : Nat} {r : ConeRecord}
    (hr : s.cones[k]? = some r) : ∃ size, p.partition.cones[k]? = some size ∧
      r = p.coneRecord mode ⟨k, p.partition.coneStart k, size⟩ := by
  rw [h.layout] at hr
  have hr : (p.partition.blocks.map (p.coneRecord mode))[k]? = some r := hr
  rw [List.getElem?_map, Partition.getElem?_blocks, Option.map_map] at hr
  have ⟨size, hs, hr⟩ := Option.map_eq_some_iff.mp hr
  exact ⟨size, hs, hr.symm⟩

theorem source_coneRecord (b : ConeBlock) : (p.coneRecord mode b).source = b.rows := by
  cases mode <;> rfl

theorem index_coneRecord (b : ConeBlock) : (p.coneRecord mode b).index = b.index := by
  cases mode <;> rfl

theorem Sited.records (h : s.Sited p mode) (hp : p.Valid) : s.Records p where
  length := by
    rw [h.layout]
    have hb := congrArg List.length p.partition.sizes_blocks
    rw [List.length_map] at hb
    exact (List.length_map _).trans hb
  index k r hr := by
    have ⟨size, _, hr⟩ := h.exists_record hr
    rw [hr, index_coneRecord]
  source k r hr := by
    have ⟨size, hs, hr⟩ := h.exists_record hr
    rw [hr, source_coneRecord, ConeBlock.rows, Partition.coneStart, Partition.coneStart,
      List.take_add_one, hs, List.sum_append]
    simp [Nat.add_assoc]
  size k r hr := by
    have ⟨size, hs, hr⟩ := h.exists_record hr
    rw [hr, hs, ConeRecord.size, source_coneRecord, ConeBlock.rows, Span.length,
      Nat.add_sub_cancel_left]
  stop := by
    rw [Partition.coneStart, List.take_length, ← hp.rows, Partition.totalRows_eq]

theorem Sited.columns_eq (h : s.Sited p mode) :
    s.columns = p.columnTable mode p.partition.blocks := by
  rw [h.layout]
  rfl

theorem Sited.tableLength (h : s.Sited p mode) : s.columnCount = s.optimizer.columnCount := by
  rw [h.columnCount, ← Problem.columnCount_loadedInstance, Instance.columnCount, h.columns_eq]
  rfl

theorem Sited.structural (h : s.Sited p mode) {j : Nat} (hj : j < p.variableCount) :
    s.columns.origin? j = some (.structural j) := by
  rw [h.columns_eq, ColumnTable.origin?, Problem.columnTable,
    List.getElem?_append_left (by simpa using hj)]
  simp [hj]

theorem Sited.realizedRow (h : s.Sited p mode) (hp : p.Valid) (i : Nat) :
    s.realizedRow? i = if i < p.heldRows mode then some i else none := by
  rw [h.layout]
  exact hp.realizedRow?_loadedInstance mode i

theorem map_size_take_blocks (q : Partition) (k : Nat) :
    (q.blocks.take k).map (·.size) = q.cones.take k := by
  rw [List.map_take, Partition.sizes_blocks]

theorem Sited.coneColumns (h : s.Sited p .auxiliary) {k : Nat} {r : ConeRecord}
    (hr : s.cones[k]? = some r) : s.columns.coneColumns k = r.columns.toList := by
  have ⟨size, hs, hr⟩ := h.exists_record hr
  have hp : ColumnOrigin.placesOf k (0 + p.variableCount) (ConeBlock.origins p.partition.blocks) =
      List.range' (p.variableCount + (p.partition.cones.take k).sum) size := by
    have := ColumnOrigin.placesOf_sequence 0 p.partition.linearRows p.variableCount hs
    rwa [Nat.zero_add] at this ⊢
  have ht : s.columns.coneColumns k = ColumnOrigin.placesOf k 0
      ((List.range p.variableCount).map .structural ++
        ConeBlock.origins p.partition.blocks) := by
    rw [h.columns_eq]
    rfl
  rw [ht, ColumnOrigin.placesOf_append, ColumnOrigin.placesOf_structural, List.nil_append,
    List.length_map, List.length_range, hp, hr]
  simp [Problem.coneRecord, Problem.slackColumn, Partition.coneStart, Span.toList, Span.length]

theorem Sited.origin?_cone (h : s.Sited p .auxiliary) (hp : p.Valid) {k i : Nat} {r : ConeRecord}
    (hr : s.cones[k]? = some r) (hi : i < r.size) :
    s.columns.origin? (r.columns.start + i) = some (.cone k i) := by
  have hsize := (h.records hp).size k r hr
  have ⟨size, hs, hr⟩ := h.exists_record hr
  have hsize : r.size = size := Option.some.inj (hsize.symm.trans hs)
  have ho := ConeBlock.getElem?_origins 0 p.partition.linearRows hs (hsize ▸ hi)
  have hc : r.columns.start + i =
      p.variableCount + ((p.partition.cones.take k).sum + i) := by
    rw [hr]
    simp [Problem.coneRecord, Problem.slackColumn, Partition.coneStart, Nat.add_assoc]
  rw [h.columns_eq, ColumnTable.origin?, hc, Problem.columnTable,
    List.getElem?_append_right (by simp)]
  simpa [Problem.coneOrigins, ConeBlock.origins, Partition.blocks] using ho

theorem Sited.constraint_auxiliary (h : s.Sited p .auxiliary) (hp : p.Valid) {k : Nat}
    {r : ConeRecord} (hr : s.cones[k]? = some r) : r.constraint =
      if 1 < r.size then some ((p.partition.cones.take k).filter (1 < ·)).length else none := by
  have hsize := (h.records hp).size k r hr
  have ⟨size, hs, hr⟩ := h.exists_record hr
  have hsize : r.size = size := Option.some.inj (hsize.symm.trans hs)
  rw [hsize, hr, Problem.coneRecord, Problem.constraintCount, Problem.length_cones_auxiliary,
    map_size_take_blocks]
  by_cases h : size ≤ 1
  case pos => simp [h]
  case neg => simp [h, Nat.lt_of_not_le h]

theorem Sited.constraint_substituted (h : s.Sited p .substituted) (hp : p.Valid) {k : Nat}
    {r : ConeRecord} (hr : s.cones[k]? = some r) : r.constraint = some k := by
  have ⟨size, hs, hr⟩ := h.exists_record hr
  have ⟨hk, _⟩ := List.getElem?_eq_some_iff.mp hs
  rw [← Partition.sizes_blocks, List.length_map] at hk
  rw [hr, Problem.coneRecord, Problem.constraintCount, Problem.length_cones_substituted
    fun b hb => hp.size_pos_of_mem (List.mem_of_mem_take hb), List.length_take,
    Nat.min_eq_left hk.le]

theorem Sited.tied (h : s.Sited p .auxiliary) (hp : p.Valid) : s.Tied p where
  toRecords := h.records hp
  rowCount := h.rowCount.trans (hp.rowCount_loaded .auxiliary)
  columnCount := by
    refine (h.columnCount.trans (Problem.columnCount_loadedWith_auxiliary _)).trans ?_
    rw [Partition.sizes_blocks, ← hp.rows, Partition.totalRows_eq, Nat.add_sub_cancel_left]
  coneCount := by
    refine (h.coneCount.trans (Problem.length_cones_auxiliary _)).trans ?_
    rw [Partition.sizes_blocks]
  tableLength := h.tableLength
  rows r hr := by
    have ⟨k, hk⟩ := List.mem_iff_getElem?.mp hr
    have ⟨size, _, hr⟩ := h.exists_record hk
    rw [hr]
    rfl
  columns r hr := by
    have ⟨k, hk⟩ := List.mem_iff_getElem?.mp hr
    have ⟨size, _, hr⟩ := h.exists_record hk
    have hl : p.partition.linearRows ≤ p.partition.coneStart k := Nat.le_add_right ..
    rw [hr]
    simp only [Problem.coneRecord, Problem.slackColumn, ConeBlock.rows]
    omega
  coneColumns _ _ := h.coneColumns
  cone _ _ _ := h.origin?_cone hp
  structural _ := h.structural
  constraint _ _ := h.constraint_auxiliary hp
  realizedRow := h.realizedRow hp

theorem Sited.folded (h : s.Sited p .substituted) (hp : p.Valid) : s.Folded p where
  toRecords := h.records hp
  rowCount := h.rowCount.trans (hp.rowCount_loaded .substituted)
  columnCount := h.columnCount.trans (Problem.columnCount_loadedWith_substituted _)
  coneCount := by
    refine (h.coneCount.trans (Problem.length_cones_substituted fun b =>
      hp.size_pos_of_mem)).trans ?_
    rw [← Partition.sizes_blocks, List.length_map]
  tableLength := h.tableLength
  structural _ := h.structural
  constraint _ _ := h.constraint_substituted hp
  realizedRow := h.realizedRow hp

theorem Sited.laidOut (h : s.Sited p mode) (hp : p.Valid) : s.LaidOut p mode := by
  cases mode
  case auxiliary => exact h.tied hp
  case substituted => exact h.folded hp

theorem Sited.apply (h : s.Sited p mode) (engine : Engine α ω) (plan : Plan α) (o : ω)
    (log : List (Event α)) :
    ((call (plan.apply (ReferenceOptimizer.operations engine))).perform
      ⟨s, o, log⟩).2.state.Sited p mode := by
  have ⟨m, hm⟩ := Option.isSome_iff_exists.mp h.loaded
  have ⟨t, ht, hw⟩ := plan.writes_apply engine s.optimizer m hm
  have hk := Model.sameCounts_writeAll plan.writes (m := m)
  rw [call, Action.perform_within, Action.perform_mapCause, hw]
  have hrow : t.rowCount = s.optimizer.rowCount := by
    rw [ReferenceOptimizer.rowCount, ReferenceOptimizer.rowCount, ht, hm]
    exact hk.rowCount
  have hcol : t.columnCount = s.optimizer.columnCount := by
    rw [ReferenceOptimizer.columnCount, ReferenceOptimizer.columnCount, ht, hm]
    exact hk.columnCount
  have hcone : t.coneCount = s.optimizer.coneCount := by
    rw [ReferenceOptimizer.coneCount, ReferenceOptimizer.coneCount, ht, hm]
    exact congrArg List.length hk.cones
  exact {
    layout := by
      show ({ s with optimizer := t } : Instance _) = _
      rw [h.layout]
    loaded := by
      show t.model.isSome
      rw [ht]
      rfl
    rowCount := hrow.trans h.rowCount
    columnCount := hcol.trans h.columnCount
    coneCount := hcone.trans h.coneCount }

-- The instance after plans are carried out one after the other, each as far as it comes.
def updated (engine : Engine α ω) (plans : List (Plan α))
    (c : Context α (Instance (ReferenceOptimizer α)) ω) :
    Context α (Instance (ReferenceOptimizer α)) ω :=
  plans.foldl (fun c plan =>
    ((call (plan.apply (ReferenceOptimizer.operations engine))).perform c).2) c

theorem Sited.updated {c : Context α (Instance (ReferenceOptimizer α)) ω}
    (h : c.state.Sited p mode) (engine : Engine α ω) (plans : List (Plan α)) :
    (updated engine plans c).state.Sited p mode := by
  induction plans generalizing c
  case nil => exact h
  case cons plan plans hi => exact hi (h.apply engine plan c.outside c.log)

-- A valid problem is loaded, and what it is loaded into is laid out as the problem is, also after
-- any plans, whether they can be carried out or not.
theorem coldLoad_laidOut {τ : Type} (engine : Engine α ω) (mode : ConeMode)
    (hv : p.validate = .ok ()) (hw : p.Indexable) (t : τ) :
    ∃ held, (coldLoad (ReferenceOptimizer.operations engine) p mode).Yields t held t ∧
      ∀ (plans : List (Plan α)) (o : ω) (log : List (Event α)),
        (updated engine plans ⟨held, o, log⟩).state.LaidOut p mode := by
  have hp := Problem.valid_of_validate hv
  refine ⟨_, hp.yields_coldLoad engine mode hv hw t, fun plans o log => ?_⟩
  exact (Sited.updated (sited_loadedInstance p mode) engine plans).laidOut hp

end Instance

section Staggered

-- Cones of two, one and three rows behind an equality, and a variable that is named as discrete
-- more than once.
def Problem.staggered : Problem Float where
  objective := [1, 0]
  matrix := {
    rows := 7
    cols := 2
    starts := [0, 4, 6]
    rowIndices := [0, 1, 3, 4, 2, 5]
    values := [1, -1, -1, -1, 1, 1] }
  rhs := [1, 0, 0, 0, 0, 0, 2]
  partition := ⟨1, 0, [2, 1, 3]⟩
  booleans := [0, 0]
  integers := [0]

-- There is no row for the second of the changes.
def Plan.broken : Plan Float where
  rhs := [⟨0, 1, 2⟩, ⟨9, 0, 1⟩]
  kinds := [⟨1, .continuous, .integer⟩]

theorem Instance.coldLoad_laidOut_staggered : ∃ held,
    (coldLoad (ReferenceOptimizer.operations (ω := Unit) fun _ => pure (.error "down")) .staggered
      .auxiliary).Yields () held () ∧
    (updated (fun _ => pure (.error "down")) [.broken, { rhs := [⟨3, 0, 1⟩] }]
      ⟨held, (), []⟩).state.Tied .staggered := by
  have hw : Problem.staggered.Indexable := by
    have h : 7 ≤ Starts.wordSize := by decide
    exact ⟨h, (by decide : 2 ≤ 7).trans h⟩
  have ⟨held, hl, h⟩ := coldLoad_laidOut (ω := Unit) (fun _ => pure (.error "down")) .auxiliary
    (p := .staggered) rfl hw ()
  exact ⟨held, hl, h _ () []⟩

end Staggered
end ConicProgram
