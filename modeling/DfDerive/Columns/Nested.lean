/-
  DfDerive.Columns.Nested — columns of nested rows.

  - `nestedColumn_refines`: for any field type around a nested row type whose implementation
    works row by row, every inner column is put back where its elements are, whichever branch
    materializes it.
  - `nestedScan_records`: the scan before it keeps the present elements in order, and for every
    slot the position of its element.
  - `branches_agree`: where two branches apply they give the same column.
-/

import DfDerive.Columns.Lists
import DfDerive.Lower.Lossless

namespace DfDerive

open Lib

/-! ## The scan -/

/-- The scan of `ctb_emit`. -/
def nestedScan (shape : WrapperShape) (access : Operand → Run Operand) (items : List Operand) : Run NestedBufs :=
  match shape with
  | .leaf s => ctbLeafScanDepth0 access s.optionLayers s.access items
  | .vec shape => do
    let st ← ShapeScan.build ⟨ctbLeafBody shape, nestedOffsetsPostPush shape, none⟩ shape access items (shapeDecls shape .new)
    .ok (Bufs.leaf _ st)

/-- The element slots of a value: what the chain above the leaf finds in every item of its
    innermost lists. -/
def WrapperShape.slots : WrapperShape → Value → List (Option Value)
  | .leaf s, v => [chainFold s.access.steps v]
  | .vec shape, v => (leavesOf (layersWord shape.layers.toList) v).map (chainFold shape.innerAccess.steps)

/-- The present elements of the slots, and where each one is. -/
structure NestedBufs.Records (s : NestedBufs) (hasLeafOption : Bool) (slots : List (Option Value)) : Prop where
  flat : s.flat = slots.reduceOption
  length : hasLeafOption = true → s.positions.length = slots.length
  position : hasLeafOption = true → ∀ k i : Nat, s.positions[k]? = some (some i) →
    ∃ u : Value, slots[k]? = some (some u) ∧ s.flat[i]? = some u
  absent : hasLeafOption = true → ∀ k : Nat, s.positions[k]? = some none ↔ slots[k]? = some none

theorem NestedAbs.records {has : Bool} {s : NestedBufs} {slots : List (Option Value)} (h : NestedAbs has s slots) :
    s.Records has slots where
  flat := h.flat
  length hhas := by rw [h.positions hhas, positionsFrom_length]
  position hhas k i hk := by
    rw [h.positions hhas] at hk
    obtain ⟨-, u, hslot, hflat⟩ := positionsFrom_get hk
    rw [h.flat]
    exact ⟨u, hslot, hflat⟩
  absent hhas k := by rw [h.positions hhas, positionsFrom_none]

section

variable {P : Value → Prop} {access : Operand → Run Operand} {read : Operand → Value} {items : List Operand}

/-- The scan ends in buffers of the slots exactly when lists and positions fit. -/
theorem nestedScan_runs {shape : WrapperShape} (hc : shape.Counted)
    (ha : Accesses access read shape.firstAccess.steps items) (ht : ∀ it ∈ items, HasWord P shape.word (read it)) :
    Run.Spec (nestedScan shape access items) (FitsWord i64Max (PositionsFit shape.hasLeafOption) shape.word (items.map read))
      (NestedAbs shape.hasLeafOption · ((items.map read).flatMap shape.slots)) := by
  cases shape with
  | leaf s =>
    have hslots : (items.map read).flatMap (WrapperShape.leaf s).slots =
        items.map fun it => chainFold s.access.steps (read it) := by
      rw [List.flatMap_map]
      exact List.map_eq_flatMap.symm
    rw [hslots]
    refine Runs.congr (ctbLeafScanDepth0_runs hc ha ht) ?_
    show _ ↔ FitsWord i64Max _ s.word _
    rw [← s.word_access, fitsWord_chain_nil, ← map_reduceOption, List.map_map]
    rfl
  | vec shape =>
    have hw := leafWalk_word hc ha ht
    have hreads : Walks (ReadsElement shape.hasInnerOption (pepLeafExpr shape) (chainFold shape.innerAccess.steps)) none shape
        access read items := hw.walks.mono fun _ h => h.1
    have hscan := build_runs (s := ⟨leafLoop (pepLeafExpr shape) (nestedPush shape.hasInnerOption),
      nestedOffsetsPostPush shape, none⟩) rfl (nestedLeafPush (pepLeafExpr shape) rfl) hw.nullable hreads (NestedAbs.new _)
      (PositionsFit.nil _) trivial
    have hfits : Fits i64Max (fun vs => PositionsFit shape.hasInnerOption (vs.map (chainFold shape.innerAccess.steps)).reduceOption)
        shape.layers.toList (rowsOf none shape read items) ↔
          FitsWord i64Max (PositionsFit shape.hasInnerOption) shape.word (items.map read) := hw.fits _
    have hslots : (items.map read).flatMap (WrapperShape.vec shape).slots =
        (leaves shape.layers.toList (rowsOf none shape read items)).map (chainFold shape.innerAccess.steps) := by
      rw [leaves_field, List.map_flatMap]
      rfl
    show Run.Spec (do
      let st ← ShapeScan.build ⟨ctbLeafBody shape, nestedOffsetsPostPush shape, none⟩ shape access items (shapeDecls shape .new)
      .ok (Bufs.leaf _ st)) _ _
    rw [ctbLeafBody_eq hc, hslots]
    refine Runs.congr (Runs.bind hscan (H := True) fun _ st hst => ?_) ((and_iff_left trivial).trans hfits)
    exact Runs.pure trivial hst.abs

end

/-! ## The branches -/

/-- With every slot filled the gathered column is the inner column; with none filled it is
    the null column, which is empty when there is no slot. -/
theorem branches_agree (xs : List (Option Value)) (df : DataFrame) (name : String) (dtype : DataType)
    (hheight : df.height = xs.reduceOption.length) :
    (xs.reduceOption.length = xs.length → (buildInnerColDirect df name dtype).map (fun s => (s.dtype, s.cells)) =
      (buildInnerColTake df (positions xs) name dtype).map fun s => (s.dtype, s.cells)) ∧
    (xs.reduceOption = [] → ∀ s, buildInnerColTake df (positions xs) name dtype = .ok s →
      (buildInnerColAllAbsent xs.length name dtype).map (fun s => (s.dtype, s.cells)) = .ok (s.dtype, s.cells)) ∧
    (xs = [] → buildInnerColEmpty name dtype = buildInnerColAllAbsent xs.length name dtype) := by
  have hlookup : ∀ s, df.column name = .ok s → s.take (positions xs) =
      .ok (Series.ofCells s.name s.dtype (gather s.cells .null (positions xs))) := by
    intro s hs
    refine if_pos fun i hi k hk => ?_
    subst hk
    rw [column_len hs, hheight]
    exact positions_lt hi
  unfold buildInnerColDirect buildInnerColTake validateNestedColumnDtype
  cases hcol : df.column name with
  | error f => exact ⟨fun _ => rfl, fun _ _ hs => (nomatch hs), fun hnil => hnil ▸ rfl⟩
  | ok s =>
    have htake := hlookup s hcol
    have hlen : s.cells.length = xs.reduceOption.length := (column_len hcol).trans hheight
    simp only [ok_bind]
    by_cases hd : s.dtype = dtype
    · rw [if_neg (not_not.mpr hd)]
      simp only [ok_bind, htake]
      refine ⟨fun hfull => ?_, fun hempty t ht => ?_, fun hnil => hnil ▸ rfl⟩
      · show Except.ok (s.dtype, s.cells) = Except.ok (s.dtype, gather s.cells .null (positions xs))
        rw [gather_full hfull (hlen.trans hfull)]
      · cases ht
        show Except.ok (dtype, [] ++ List.replicate xs.length Nested.null) =
          Except.ok (s.dtype, gather s.cells .null (positions xs))
        rw [gather_empty _ _ hempty, hd]
        rfl
    · rw [if_pos hd]
      exact ⟨fun _ => rfl, fun _ _ ht => (nomatch ht), fun hnil => hnil ▸ rfl⟩

/-! ## Columns that refine the elements -/

/-- An implementation that works row by row: a column it answers holds, for every row, what
    `cols` says of that row. It may fail, and what it answers may be refused. -/
structure Impl.RowByRow (impl : Impl) (P : Value → Prop) (cols : List ColumnSpec) : Prop extends impl.Answers P where
  entries : ∀ es, impl.schema = .ok es → es = cols.map ColumnSpec.entry
  cells : ∀ vs, (∀ v ∈ vs, P v) → ∀ df, impl.columnarFromRefs vs = .ok df →
    ∀ c ∈ cols, ∀ s, df.column c.name = .ok s → s.cells = vs.map c.cell

/-- A column of nested rows: in every slot the inner column's cell of exactly that element,
    null where there is none, below the lists of the field. Every position leads to its
    element, a position that does not fit ends in an `Err`, and the branches agree. -/
theorem nestedColumn_refines (ctb : CollectThenBulk) {P : Value → Prop} {cols : List ColumnSpec}
    (hrow : ctb.impl.RowByRow P cols) (ws : List RawWrapper) (hfirst : ∀ ws', ws ≠ .smartPtr :: ws') (source : FieldSource)
    {rows : List Value} {items : List Operand} (hitems : ItemsOf rows items) (ht : FieldRows P source ws rows) :
    Runs Fault.Reported (buildNestedEncoder (normalizeWrappers ws) ctb (fieldSourceAccess source) items)
      (FitsWord i64Max (PositionsFit (normalizeWrappers ws).hasLeafOption) ws (fieldValues source rows) ∧
        NestedAnswers ctb ((fieldValues source rows).flatMap (leavesOf ws))
          (ElementsUsed (normalizeWrappers ws) ((fieldValues source rows).flatMap (leavesOf ws))))
      (fun out => List.Forall₂ (fun c s => s.name = composeNestedName ctb.namePolicy ctb.name c.name ∧
        s.dtype = wrapListLayers c.dtype (normalizeWrappers ws).vecDepth ∧
          s.cells = (fieldValues source rows).map (cellOf c.cell ws)) cols out) ∧
    (∀ bufs, nestedScan (normalizeWrappers ws) (fieldSourceAccess source) items = .ok bufs →
      bufs.Records (normalizeWrappers ws).hasLeafOption ((fieldValues source rows).flatMap (normalizeWrappers ws).slots)) ∧
    (¬ PositionsFit (normalizeWrappers ws).hasLeafOption ((fieldValues source rows).flatMap (leavesOf ws)) →
      ∃ e, buildNestedEncoder (normalizeWrappers ws) ctb (fieldSourceAccess source) items = .error e ∧ e.Reported) ∧
    (∀ (xs : List (Option Value)) (df : DataFrame) (name : String) (dtype : DataType), df.height = xs.reduceOption.length →
      (xs.reduceOption.length = xs.length → (buildInnerColDirect df name dtype).map (fun s => (s.dtype, s.cells)) =
        (buildInnerColTake df (positions xs) name dtype).map fun s => (s.dtype, s.cells)) ∧
      (xs.reduceOption = [] → ∀ s, buildInnerColTake df (positions xs) name dtype = .ok s →
        (buildInnerColAllAbsent xs.length name dtype).map (fun s => (s.dtype, s.cells)) = .ok (s.dtype, s.cells)) ∧
      (xs = [] → buildInnerColEmpty name dtype = buildInnerColAllAbsent xs.length name dtype)) ∧
    (∀ (f : Value → Cell) (access : AccessChain) (w : List RawWrapper) (v : Value), HasWord P (access.word ++ .vec :: w) v →
      (cellOf f (access.word ++ .vec :: w) v = .null ↔ chainFold access.steps v = none) ∧
        (cellOf f (access.word ++ .vec :: w) v = .list [] ↔ chainFold access.steps v = some (.vec []))) ∧
    (∀ (f : Value → Cell) (access : AccessChain) (v : Value), HasWord P access.word v →
      cellOf f access.word v = (chainFold access.steps v).elim .null f) := by
  have hword := normalizeWrappers_word hfirst
  have hc : (normalizeWrappers ws).Counted := (normalizeWrappers_normalized hfirst).counted
  have ha := hitems.accesses ht (normalizeWrappers ws).firstAccess.steps
  have htyped : ∀ it ∈ items, HasWord P (normalizeWrappers ws).word (fieldRead source it) := by
    intro it hit
    rw [hword]
    exact (hitems.field ht hit).2
  have helems := typed_elements htyped
  have hrun := buildNestedEncoder_batch hc ha htyped (hrow.toAnswers.within helems)
  have hscan := nestedScan_runs hc ha htyped
  rw [hword, hitems.read] at hrun helems
  rw [hword, hitems.read] at hscan
  refine ⟨Runs.mono hrun fun hG out hout => ?_, fun bufs hbufs => (hscan.of_eq_ok hbufs).2.records, fun hfit => ?_,
    branches_agree, fun f access w v hv => cellOf_absent_or_empty f access w hv, fun f access v hv => cellOf_chain f hv⟩
  · obtain ⟨-, entries, hschema, hanswers⟩ := hG
    obtain rfl := hrow.entries entries hschema
    refine hout.columns_of hschema (fun hused => ?_) (elementsUsed_not _)
    obtain ⟨df, hdf, -, -⟩ := hanswers hused
    exact ⟨df, hdf, hrow.cells _ helems df hdf⟩
  · rcases hrun.safe with ⟨out, hout, -⟩ | herror
    · exact absurd (fitsWord_iff.mp (hrun.of_eq_ok hout).1.1).2 hfit
    · exact herror

/-- A column of nested rows whose implementation works row by row. -/
theorem ColumnIR.Follows.run_rowByRow {c : ColumnIR} {w : Walk} {carried : Bool} {items : List Operand}
    (h : c.Follows w carried) (env : Env) {nested : NestedLeaf} {P : Value → Prop} {cols : List ColumnSpec}
    (hroute : c.leafSpec.route = .nested nested) (hrow : (env.impl nested.ty).RowByRow P cols) (hrows : RowItems items)
    (ht : ∀ it ∈ items, w.typed P it.erase) :
    ∃ used : Prop, (¬ used → (items.map Operand.erase).flatMap w.leaves = []) ∧
      Runs Fault.Reported (c.run env items)
        (w.fits (PositionsFit carried) (items.map Operand.erase) ∧
          NestedAnswers ⟨env.impl nested.ty, c.name, c.nestedNamePolicy⟩ ((items.map Operand.erase).flatMap w.leaves) used)
        (fun out => List.Forall₂ (fun col s => s.name = composeNestedName c.nestedNamePolicy c.name col.name ∧
          s.dtype = wrapListLayers col.dtype w.depth ∧ s.cells = (items.map Operand.erase).map (w.cell col.cell)) cols out) := by
  obtain ⟨used, hused, hrun⟩ := h.run_nested env hroute hrow.toAnswers hrows ht
  refine ⟨used, hused, Runs.mono hrun fun hG out hout => ?_⟩
  obtain ⟨-, entries, hschema, hanswers⟩ := hG
  obtain rfl := hrow.entries entries hschema
  refine hout.columns_of hschema (fun hu => ?_) hused
  obtain ⟨df, hdf, -, -⟩ := hanswers hu
  exact ⟨df, hdf, hrow.cells _ (Walk.leaves_typed ht) df hdf⟩

/-- An implementation that follows a reference works row by row. -/
theorem Models.rowByRow {impl : Impl} {spec : RowSpec} (hm : Models impl spec) : impl.RowByRow spec.typed spec.columns where
  schema f hf := (hm.schema.of_eq_error hf).reported
  batch vs hvs f hf := ((hm.fromRefs vs hvs).of_eq_error hf).reported
  entries es hes := (hm.schema.of_eq_ok hes).2
  cells vs hvs df hdf c hc s hs := by
    obtain ⟨s', hs', hholds⟩ := ((hm.fromRefs vs hvs).of_eq_ok hdf).2.column hc
    rw [hs] at hs'
    cases hs'
    exact hholds.cells

/-- `points: Vec<Option<Point>>`, the second slot empty -/
theorem nestedColumn_refines_points : ∃ s, buildNestedEncoder (normalizeWrappers [.vec, .option])
      ⟨pointTree.impl brokenTraits, "points", .field⟩ (fieldSourceAccess ⟨"points", none, 0⟩)
      (ownedItems [.struct [("points", .vec [.some (pointRow 1), .none])], .struct [("points", .vec [])]]) = .ok [s] ∧
        s.cells = [.list [.val (.int 1), .null], .list []] := by
  have ht : FieldRows (pointTree.spec brokenTraits).typed ⟨"points", none, 0⟩ [.vec, .option]
      [.struct [("points", .vec [.some (pointRow 1), .none])], .struct [("points", .vec [])]] := by
    intro v hv
    rcases List.mem_cons.mp hv with rfl | hv
    · refine ⟨_, rfl, fun u hu => ?_⟩
      rcases List.mem_cons.mp hu with rfl | hu
      · exact pointRow_typed brokenTraits 1
      · rw [List.mem_singleton.mp hu]
        trivial
    · rw [List.mem_singleton.mp hv]
      exact ⟨_, rfl, nofun⟩
  obtain ⟨out, hout, -⟩ := Run.ok_of_map (r := buildNestedEncoder (normalizeWrappers [.vec, .option])
    ⟨pointTree.impl brokenTraits, "points", .field⟩ (fieldSourceAccess ⟨"points", none, 0⟩)
    (ownedItems [.struct [("points", .vec [.some (pointRow 1), .none])], .struct [("points", .vec [])]]))
    (f := List.length) (b := 1) rfl
  have hcols := ((nestedColumn_refines ⟨pointTree.impl brokenTraits, "points", .field⟩
    (TypeTree.models brokenTraits pointTree).rowByRow [.vec, .option] nofun ⟨"points", none, 0⟩ (Or.inl rfl) ht).1.of_eq_ok
      hout).2
  cases hcols with
  | cons hs hnil =>
    cases hnil
    exact ⟨_, hout, hs.2.2⟩

end DfDerive
