import ConicProgram.Proofs.Loading.Places

namespace ConicProgram

namespace Problem

variable {α τ ω : Type} [Scalar α] {p : Problem α} {bs : List ConeBlock} {b : ConeBlock}

-- Indices into the problem fit machine words.
structure Indexable (p : Problem α) : Prop where
  rows    : p.rowCount ≤ Starts.wordSize
  columns : p.variableCount ≤ Starts.wordSize

variable (engine : Engine α ω) (mode : ConeMode)

theorem Valid.yields_addBlock (h : p.Valid) (hw : p.Indexable) (hb : p.partition.Follows bs b) :
    (Instance.addBlock (ReferenceOptimizer.operations engine) p b).Yields
      (p.instanceWith mode bs) () (p.instanceWith mode (bs ++ [b])) := by
  refine .bind (Action.yields_ofOption (h.rowBlock?_eq hw.rows hb)) ?_
  refine .bind (Action.yields_ofOption (h.slice?_block hb)) ?_
  refine .bind Action.yields_state ?_
  have hc (mode : ConeMode) : (p.instanceWith mode (bs ++ [b])).cones =
      (p.instanceWith mode bs).cones ++ [p.coneRecord mode b] := by
    simp [instanceWith]
  cases mode
  case auxiliary =>
    refine .bind (h.yields_addAuxiliary hb engine) ?_
    rw [show p.instanceWith .auxiliary (bs ++ [b]) = Instance.addRecord (p.coneRecord .auxiliary b)
      { p.instanceWith .auxiliary bs with
        optimizer := .holding default (p.loadedWith .auxiliary (bs ++ [b]))
        columns := p.columnTable .auxiliary (bs ++ [b]) } by simp [Instance.addRecord, ← hc]; rfl]
    exact Action.yields_modifyState _
  case substituted =>
    refine .bind (h.yields_addSubstituted hb engine) ?_
    rw [show p.instanceWith .substituted (bs ++ [b]) =
      Instance.addRecord (p.coneRecord .substituted b) { p.instanceWith .substituted bs with
        optimizer := .holding default (p.loadedWith .substituted (bs ++ [b])) }
      by simp [Instance.addRecord, ← hc]; rfl]
    exact Action.yields_modifyState _

theorem Valid.yields_addBlocks (h : p.Valid) (hw : p.Indexable) (rest : List ConeBlock)
    (hb : p.partition.blocks = bs ++ rest) :
    (rest.forM (Instance.addBlock (ReferenceOptimizer.operations engine) p)).Yields
      (p.instanceWith mode bs) () (p.loadedInstance mode) := by
  induction rest generalizing bs
  case nil =>
    rw [loadedInstance, hb, List.append_nil]
    exact Action.yields_pure
  case cons b rest hi =>
    refine .bind (h.yields_addBlock engine mode hw (Partition.follows_of_blocks_eq hb)) (hi ?_)
    rw [hb, List.append_assoc]
    rfl

omit [Scalar α] in
theorem columnTable_nil (mode : ConeMode) :
    p.columnTable mode [] = .ofVariables p.variableCount := by
  cases mode <;> simp [columnTable, coneOrigins, ColumnTable.ofVariables]

theorem columnCount_loadedInstance (mode : ConeMode) :
    (p.loadedInstance mode).columnCount = (p.loaded mode).columnCount := by
  cases mode
  case auxiliary => exact (columnCount_eq_length p _).symm
  case substituted =>
    rw [loaded, columnCount_loadedWith_substituted]
    simp [Instance.columnCount, ColumnTable.length, loadedInstance, instanceWith, columnTable,
      coneOrigins]

theorem Valid.yields_cones (h : p.Valid) (hw : p.Indexable) :
    (do
      p.partition.blocks.forM (Instance.addBlock (ReferenceOptimizer.operations engine) p)
      let s ← Action.state
      Instance.call ((ReferenceOptimizer.operations engine).setObjective
        (p.paddedObjective s.columnCount))
      Action.record (.coldLoaded s.columnCount (s.columnCount - p.variableCount)
        p.partition.linearRows s.cones.length)).Yields
      (p.instanceWith mode []) () (p.loadedInstance mode) := by
  refine .bind (h.yields_addBlocks engine mode hw _ rfl) (.bind Action.yields_state ?_)
  rw [columnCount_loadedInstance, ← h.objective_loaded]
  refine .bind (Instance.yields_call (ReferenceOptimizer.yields_setObjective rfl ?_ rfl))
    (Action.yields_record _)
  rw [h.objective_loaded, length_paddedObjective]
  rfl

theorem Valid.yields_fill (h : p.Valid) (hw : p.Indexable) : ∃ d, p.linearData = .ok d ∧
    (Instance.fill (ReferenceOptimizer.operations engine) p d).Yields
      (.blank default mode p.variableCount p.partition.linearRows) () (p.loadedInstance mode) := by
  have ⟨d, entries, hd, hm, he⟩ := h.linearData_eq hw.columns
  refine ⟨d, hd, .bind (Instance.yields_call (ReferenceOptimizer.yields_load hm he)) ?_⟩
  have hnil : { Instance.blank (default : ReferenceOptimizer α) mode p.variableCount
      p.partition.linearRows with optimizer := .holding default (p.loadedWith mode []) } =
      p.instanceWith mode [] := by
    rw [instanceWith, columnTable_nil]
    rfl
  have hrest := h.yields_cones engine mode hw
  rw [← hnil, ← foldl_put_discreteKinds] at hrest
  rw [List.unzip_eq_map]
  -- Nothing is called where all variables are continuous.
  show Action.Yields (if (p.discreteKinds.map Prod.fst).isEmpty = true then _ else _) _ _ _
  split
  case isTrue hk =>
    have hk : p.discreteKinds = [] := by simpa using hk
    rw [hk] at hrest
    exact hrest
  case isFalse hk =>
    exact .bind (Instance.yields_call (ReferenceOptimizer.yields_changeKinds _ _ _ rfl
      fun k hk => h.fits_kind hk)) hrest

-- Loading leaves nothing behind but the instance, whatever the state that it is called from.
theorem Valid.yields_coldLoad (h : p.Valid) (hv : p.validate = .ok ()) (hw : p.Indexable) (t : τ) :
    (Instance.coldLoad (ReferenceOptimizer.operations engine) p mode).Yields t
      (p.loadedInstance mode) t := by
  have ⟨d, hd, hf⟩ := h.yields_fill engine mode hw
  refine .bind (Action.yields_ofAttempt (by rw [hv]; rfl)) ?_
  refine .bind (Action.yields_ofAttempt hd) ?_
  exact .bind (hf.startOn t) Action.yields_pure

variable {engine mode} in
theorem validate_of_yields {cold : Instance (ReferenceOptimizer α)} {t t' : τ} (o : ω)
    (h : (Instance.coldLoad (ReferenceOptimizer.operations engine) p mode).Yields t cold t') :
    p.validate = .ok () := by
  have ⟨_, h⟩ := h o []
  have ⟨_, _, h, _⟩ := Action.perform_bind_eq_ok_iff.mp h
  rw [Action.perform_ofAttempt] at h
  exact Attempt.ofExcept_eq_ok_iff.mp (Attempt.mapCause_eq_ok_iff.mp (congrArg Prod.fst h))

end Problem
end ConicProgram
