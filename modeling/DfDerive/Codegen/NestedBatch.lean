/-
  DfDerive.Codegen.NestedBatch — the columns of a nested field (see `DfDerive.Codegen.Nested`).

  `NestedBatch` says what the series of a batch are, whatever the element type answers: one
  column for every entry of its schema, with the columns of its answer put back into the
  slots. `buildNestedEncoder_batch` proves it for every wrapper shape of a field.
-/

import DfDerive.Codegen.LeafWalk

namespace DfDerive

open Lib

/-! ## Batches -/

/-- An `Option` lies above the leaf, so that its slots may be empty. -/
def WrapperShape.hasLeafOption : WrapperShape → Bool
  | .leaf .bare => false
  | .leaf (.optional _ _) => true
  | .vec shape => shape.hasInnerOption

section

variable {ctb : CollectThenBulk} {spec : RowSpec} {used : Prop} {depth : Nat} {elems : List Value}
  {cells : (Value → Cell) → List Cell} {out : List Series}

theorem NestedBatch.cells_congr {cells' : (Value → Cell) → List Cell} (h : NestedBatch ctb used depth elems cells out)
    (hcells : ∀ f, cells f = cells' f) : NestedBatch ctb used depth elems cells' out := by
  obtain ⟨item, raws, rows, hout, helems, hc⟩ := h
  exact ⟨item, raws, rows, hout, helems, fun f => (hc f).trans (hcells f)⟩

theorem NestedBatch.entries (h : NestedBatch ctb used depth elems cells out) {n : Nat}
    (hn : ∀ f, (cells f).length = n) :
    ∃ entries, ctb.impl.schema = .ok entries ∧ List.Forall₂ (fun e s =>
      s.name = composeNestedName ctb.namePolicy ctb.name e.1 ∧ s.dtype = wrapListLayers e.2 depth ∧ s.chunk.Exact depth ∧
        s.len = n) entries out := by
  obtain ⟨item, raws, rows, hout, -, hcells⟩ := h
  have hrows : rows.length = n := by
    rw [← hn fun _ => .null, ← hcells, List.length_map]
  rw [← hrows]
  exact hout.entries

/-- An implementation that follows a reference passes the checks exactly when it converts
    the elements. -/
theorem nestedAnswers_iff (hm : Models ctb.impl spec) (ht : ∀ v ∈ elems, spec.typed v) (hused : ¬ used → elems = []) :
    NestedAnswers ctb elems used ↔ spec.valid ∧ spec.Accepts elems := by
  constructor
  · rintro ⟨entries, hs, hans⟩
    have hvalid : spec.valid := (hm.schema.of_eq_ok hs).1
    refine ⟨hvalid, ?_⟩
    by_cases hu : used
    · obtain ⟨df, hdf, -, -⟩ := hans hu
      exact ((hm.fromRefs elems ht).of_eq_ok hdf).1.2
    · rw [hused hu]
      exact spec.accepts_nil
  · rintro ⟨hvalid, hacc⟩
    obtain ⟨entries, hs, rfl⟩ := hm.schema.ok_of hvalid
    obtain ⟨df, hdf, hframe⟩ := (hm.fromRefs elems ht).ok_of ⟨hvalid, hacc⟩
    refine ⟨_, hs, fun _ => ⟨df, hdf, hframe.height, fun e he => ?_⟩⟩
    obtain ⟨c, hc, rfl⟩ := List.mem_map.mp he
    obtain ⟨s, hcol, hholds⟩ := hframe.column hc
    exact ⟨s, hcol, hholds.dtype⟩

/-- When the answers are the columns `cols` of the elements, every column holds, in every
    slot, what `cols` says of the element, and null where there is none. -/
theorem NestedBatch.columns_of {cols : List ColumnSpec} (hschema : ctb.impl.schema = .ok (cols.map ColumnSpec.entry))
    (hframe : used → ∃ df, ctb.impl.columnarFromRefs elems = .ok df ∧
      ∀ c ∈ cols, ∀ t, df.column c.name = .ok t → t.cells = elems.map c.cell) (hused : ¬ used → elems = [])
    (h : NestedBatch ctb used depth elems cells out) :
    List.Forall₂ (fun c s => s.name = composeNestedName ctb.namePolicy ctb.name c.name ∧
      s.dtype = wrapListLayers c.dtype depth ∧ s.cells = cells c.cell) cols out := by
  obtain ⟨item, raws, rows, ⟨wrapCells, ⟨entries, hs, hout⟩, -, hwrap⟩, helems, hcells⟩ := h
  rw [hschema] at hs
  cases hs
  rw [helems] at hout
  rw [List.forall₂_map_left_iff] at hout
  have hmem : ∀ c ∈ cols, ∀ s : Series, s.name = composeNestedName ctb.namePolicy ctb.name c.entry.1 ∧
      s.dtype = wrapListLayers c.entry.2 depth ∧ s.chunk.Exact depth ∧ (∃ col, AnswerColumn ctb.impl elems used c.entry col ∧
        s.cells = wrapCells (gather col .null (positions (raws.map item)))) →
      s.name = composeNestedName ctb.namePolicy ctb.name c.name ∧ s.dtype = wrapListLayers c.dtype depth ∧
        s.cells = cells c.cell := by
    rintro c hc s ⟨hn, hd, -, col, ⟨hlen, hcol⟩, hsc⟩
    have hcolumn : col = (raws.map item).reduceOption.map c.cell := by
      rw [helems]
      by_cases hu : used
      · obtain ⟨df, hdf, hframe⟩ := hframe hu
        obtain ⟨t, ht, hcells⟩ := hcol hu df hdf
        rw [← hcells]
        exact hframe c hc t ht
      · rw [hused hu] at hlen ⊢
        exact List.length_eq_zero_iff.mp hlen
    refine ⟨hn, hd, ?_⟩
    rw [hsc, hcolumn, gather_map, List.map_map, ← hcells]
    exact hwrap _
  clear hschema hframe
  generalize cols = cols at hout hmem
  induction hout with
  | nil => exact .nil
  | cons hc _ ih =>
    exact .cons (hmem _ List.mem_cons_self _ hc) (ih fun c hc => hmem c (List.mem_cons_of_mem _ hc))

/-- So it is with an implementation that follows a reference. -/
theorem NestedBatch.columns (hm : Models ctb.impl spec) (ht : ∀ v ∈ elems, spec.typed v) (hvalid : spec.valid)
    (hacc : spec.Accepts elems) (hused : ¬ used → elems = []) (h : NestedBatch ctb used depth elems cells out) :
    List.Forall₂ (fun c s => s.name = composeNestedName ctb.namePolicy ctb.name c.name ∧
      s.dtype = wrapListLayers c.dtype depth ∧ s.cells = cells c.cell) spec.columns out := by
  obtain ⟨entries, hs, rfl⟩ := hm.schema.ok_of hvalid
  obtain ⟨df, hdf, hframe⟩ := (hm.fromRefs elems ht).ok_of ⟨hvalid, hacc⟩
  refine h.columns_of hs (fun _ => ⟨df, hdf, fun c hc t ht => ?_⟩) hused
  obtain ⟨t', ht', hholds⟩ := hframe.column hc
  rw [ht] at ht'
  cases ht'
  exact hholds.cells

end

section

variable {E : Fault → Prop} {ctb : CollectThenBulk} {access : Operand → Run Operand} {read : Operand → Value}
  {items : List Operand} {P : Value → Prop}

/-- The frame is asked for when there is an element, and always for a bare field. -/
def ElementsUsed (shape : WrapperShape) (elems : List Value) : Prop := elems ≠ [] ∨ shape = .leaf .bare

theorem elementsUsed_not (shape : WrapperShape) {elems : List Value} (h : ¬ ElementsUsed shape elems) : elems = [] := by
  by_contra hne
  exact h (Or.inl hne)

/-- Matching a field directly, or through the collapsed chain, is following its chain. -/
theorem ctbDepth0MatchExpr_eq (o : Operand) {chain : AccessChain} (hpos : 0 < chain.optionLayers) :
    ctbDepth0MatchExpr o chain chain.optionLayers = (accessChainToRef (.ok (.ref o)) chain).expr := by
  have hne : chain.isEmpty = false := by
    have := optionLayers_pos.mp hpos
    cases hst : chain.steps with
    | nil => rw [hst] at this; cases this
    | cons _ _ => simp [AccessChain.isEmpty, hst]
  unfold ctbDepth0MatchExpr
  split
  · rename_i hone
    obtain ⟨steps⟩ := chain
    obtain rfl := singlePlainOption_steps hone
    rfl
  · rename_i hmany
    split
    · rename_i hall
      have h1 : chain.optionLayers ≠ 1 := by
        intro h1
        apply hmany
        have := onlyOptions_steps hall
        rw [h1] at this
        simp [AccessChain.isSinglePlainOption, this]
      simp only [accessChainToRef, hne, Bool.false_eq_true, ite_false, hall, ite_true, if_neg h1, collapseOptionsToRef,
        if_neg (Nat.pos_iff_ne_zero.mp hpos), ok_bind]
      rfl
    · rfl

/-- The scan of a shape without `Vec` layers pushes what its chain finds in every item. -/
theorem ctbLeafScanDepth0_runs {s : LeafShape} (hc : s.Counted) (ha : Accesses access read s.access.steps items)
    (ht : ∀ it ∈ items, HasWord P s.word (read it)) :
    Run.Spec (ctbLeafScanDepth0 access s.optionLayers s.access items)
      (PositionsFit (WrapperShape.leaf s).hasLeafOption (items.map fun it => chainFold s.access.steps (read it)).reduceOption)
      (NestedAbs (WrapperShape.leaf s).hasLeafOption · (items.map fun it => chainFold s.access.steps (read it))) := by
  cases s with
  | bare =>
    have hreads : ∀ it ∈ items, ∃ a o, access it = .ok a ∧ ctbDepth0RefExpr a .empty = .ok o ∧
        LeafReads false o (chainFold [] (read it)) := by
      intro it hit
      obtain ⟨o, ho, hb⟩ := ha it hit
      have hb : ChainBase [] (.ref o) (read it) := hb
      refine ⟨o, .ref o, ho, rfl, read it, rfl, ?_⟩
      rw [chainBase_nil hb]
      exact Operand.refTo_place _
    exact nestedLoop_runs hreads
  | optional n chain =>
    obtain ⟨rfl, hpos⟩ := hc
    have hreads : ∀ it ∈ items, ∃ a o, access it = .ok a ∧ ctbDepth0MatchExpr a chain chain.optionLayers = .ok o ∧
        LeafReads true o (chainFold chain.steps (read it)) := by
      intro it hit
      obtain ⟨o, ho, hb⟩ := ha it hit
      have hb : ChainBase chain.steps (.ref o) (read it) := hb
      have hword : HasWord P chain.word (read it) := ht it hit
      obtain ⟨-, e, he, hval⟩ := accessChainToRef_spec hb hword
      refine ⟨o, e, ho, by rw [ctbDepth0MatchExpr_eq o hpos, he], ?_⟩
      exact hval.optional (optionLayers_pos.mp hpos)
    have hscan : ctbLeafScanDepth0 access chain.optionLayers chain items = items.foldlM
        (fun s it => do nestedPush true s (← ctbDepth0MatchExpr (← access it) chain chain.optionLayers)) .new :=
      if_neg (Nat.pos_iff_ne_zero.mp hpos)
    show Run.Spec (ctbLeafScanDepth0 access chain.optionLayers chain items) _ _
    rw [hscan]
    exact nestedLoop_runs hreads

/-- The passes of a shape without `Vec` layers. -/
theorem vecEmitCtb_leaf (s : LeafShape) : vecEmitCtb ctb (.leaf s) access items = (do
    let bufs ← ctbLeafScanDepth0 access s.optionLayers s.access items
    materializeNestedColumns ctb bufs.flat (if (WrapperShape.leaf s).hasLeafOption then some bufs.positions else none)
      items.length none) := by
  cases s <;> rfl

theorem nestedLeaf_batch {hasInnerOption : Bool} {s : NestedBufs} {slot : Operand → Option Value}
    (habs : NestedAbs hasInnerOption s (items.map slot)) (hin : ctb.impl.Within E (items.map slot).reduceOption)
    {steps : List AccessStep} (hslot : ∀ it ∈ items, slot it = chainFold steps (read it)) :
    Runs E (materializeNestedColumns ctb s.flat (if hasInnerOption then some s.positions else none) items.length none)
      (NestedAnswers ctb (items.map slot).reduceOption (FrameUsed hasInnerOption none (items.map slot).reduceOption))
      (NestedBatch ctb (FrameUsed hasInnerOption none (items.map slot).reduceOption) 0 (items.map slot).reduceOption
        fun f => items.map fun it => (chainFold steps (read it)).elim .null f) := by
  have hslots : items.map slot = (items.map read).map (chainFold steps) := by
    rw [List.map_map]
    exact List.map_congr_left hslot
  have hflat := habs.flat
  rw [← hflat] at hin ⊢
  refine Runs.mono (materializeNestedColumns_runs habs (List.length_map slot).symm rfl wraps_none hin) fun _ out hout => ?_
  refine ⟨chainFold steps, items.map read, (items.map read).map .val, ⟨id, ?_, ?_, ?_⟩, ?_, ?_⟩
  · rw [← hslots, ← hflat]
    exact hout
  · intro c hc
    simpa using hc
  · intro f
    simp only [id, List.map_map]
    exact List.map_congr_left fun it _ => (Nested.bind_val f _).symm
  · rw [← hslots, hflat]
  · intro f
    rw [List.map_map, List.map_map]
    exact List.map_congr_left fun it _ => Nested.bind_val _ _

/-- The nested encoder of a field: one batch of the elements its wrappers lead to. -/
theorem buildNestedEncoder_batch {shape : WrapperShape} (hc : shape.Counted)
    (ha : Accesses access read shape.firstAccess.steps items) (ht : ∀ it ∈ items, HasWord P shape.word (read it))
    (hin : ctb.impl.Within E ((items.map read).flatMap (leavesOf shape.word))) :
    Runs E (buildNestedEncoder shape ctb access items)
      (FitsWord i64Max (PositionsFit shape.hasLeafOption) shape.word (items.map read) ∧
        NestedAnswers ctb ((items.map read).flatMap (leavesOf shape.word))
          (ElementsUsed shape ((items.map read).flatMap (leavesOf shape.word))))
      (NestedBatch ctb (ElementsUsed shape ((items.map read).flatMap (leavesOf shape.word))) shape.vecDepth
        ((items.map read).flatMap (leavesOf shape.word)) fun f => (items.map read).map (cellOf f shape.word)) := by
  cases shape with
  | leaf s =>
    have hslots : items.map (fun it => chainFold s.access.steps (read it)) = (items.map read).map (chainFold s.access.steps) :=
      (List.map_map).symm
    have helems : (items.map read).flatMap (leavesOf (WrapperShape.leaf s).word) =
        (items.map fun it => chainFold s.access.steps (read it)).reduceOption := by
      rw [hslots]
      show (items.map read).flatMap (leavesOf s.word) = _
      rw [← s.word_access]
      exact leavesOf_chains _ _
    have hcells (f : Value → Cell) : (items.map fun it => (chainFold s.access.steps (read it)).elim .null f) =
        (items.map read).map (cellOf f (WrapperShape.leaf s).word) := by
      rw [List.map_map]
      refine List.map_congr_left fun it hit => ?_
      show _ = cellOf f s.word (read it)
      have htit : HasWord P s.word (read it) := ht it hit
      rw [← s.word_access] at htit ⊢
      rcases HasWord.chain s.access.steps htit with ⟨u, hu, -, -, hcell⟩ | ⟨hn, -, -, hcell⟩
      · rw [hu]; exact (hcell f).symm
      · rw [hn]; exact (hcell f).symm
    have hfits (F : List Value → Prop) : FitsWord i64Max F (WrapperShape.leaf s).word (items.map read) ↔
        F (items.map fun it => chainFold s.access.steps (read it)).reduceOption := by
      show FitsWord i64Max F s.word _ ↔ _
      rw [← s.word_access, fitsWord_chain_nil, hslots, map_reduceOption]
    rw [helems] at hin ⊢
    rw [hfits]
    simp only [← hcells]
    show Runs E (vecEmitCtb ctb (.leaf s) access items) _ _
    rw [vecEmitCtb_leaf]
    refine Runs.bind ((ctbLeafScanDepth0_runs hc ha ht).weaken hin.data) fun _ bufs hbufs => ?_
    have hmat := nestedLeaf_batch hbufs hin fun _ _ => rfl
    have hused : FrameUsed (WrapperShape.leaf s).hasLeafOption none
        (items.map fun it => chainFold s.access.steps (read it)).reduceOption =
          ElementsUsed (.leaf s) (items.map fun it => chainFold s.access.steps (read it)).reduceOption := by
      refine propext (or_congr_right ?_)
      cases s <;> simp [WrapperShape.hasLeafOption]
    rw [hused] at hmat
    exact hmat
  | vec shape =>
    have hrun := (leafWalk_word hc ha ht).nested hin
    show Runs E (nestedVecEmit ctb (ctbLeafBody shape) none shape access items) _ _
    rw [ctbLeafBody_eq hc]
    have hused : ElementsUsed (.vec shape) ((items.map read).flatMap (leavesOf (WrapperShape.vec shape).word)) =
        ((items.map read).flatMap (leavesOf (WrapperShape.vec shape).word) ≠ []) :=
      propext (or_iff_left (by simp))
    rw [hused]
    exact hrun

end

/-! ## The elements -/

/-- An implementation that follows a reference passes every check. -/
theorem Models.within {impl : Impl} {spec : RowSpec} (hm : Models impl spec) {flat : List Value} (ht : ∀ v ∈ flat, spec.typed v) :
    impl.Within Fault.FromData flat where
  data _ hf := hf
  schema _ he := hm.schema.of_eq_error he
  batch _ he := (hm.fromRefs flat ht).of_eq_error he
  height df hdf hne := absurd ((hm.fromRefs flat ht).of_eq_ok hdf).2.height hne
  columns df entries hdf hs e he := by
    have hframe := ((hm.fromRefs flat ht).of_eq_ok hdf).2
    obtain rfl := (hm.schema.of_eq_ok hs).2
    obtain ⟨c, hc, rfl⟩ := List.mem_map.mp he
    obtain ⟨t, hcol, hholds⟩ := hframe.column hc
    refine ⟨fun f hf => ?_, fun s hcol' hne => ?_⟩
    · have hf : df.column c.name = .error f := hf
      rw [hcol] at hf
      cases hf
    · have hcol' : df.column c.name = .ok s := hcol'
      rw [hcol] at hcol'
      cases hcol'
      exact absurd hholds.dtype hne

theorem typed_elements {P : Value → Prop} {w : List RawWrapper} {read : Operand → Value} {items : List Operand}
    (ht : ∀ it ∈ items, HasWord P w (read it)) : ∀ v ∈ (items.map read).flatMap (leavesOf w), P v := by
  intro v hv
  obtain ⟨u, hu, hv⟩ := List.mem_flatMap.mp hv
  obtain ⟨it, hit, rfl⟩ := List.mem_map.mp hu
  exact HasWord.leaves (ht it hit) v hv

end DfDerive
