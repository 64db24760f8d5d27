/-
  DfDerive.Codegen.ColumnEmitProofs — every column follows a walk (see `DfDerive.Codegen.ColumnEmit`).

  `ColumnIR.Follows` says what the encoder of a column does with the rows of a batch: along
  the column's `Walk`, a primitive column holds the cells of the leaves it leads to, and a
  nested column is one batch of the elements it leads to. It holds for a field
  (`follows_field`), and for an element of a tuple below no wrapper, below `Option`s and
  below `Vec`s (`follows_tupleStatic`, `follows_tupleParentOption`, `follows_tupleParentVec`).
-/

import DfDerive.Codegen.ColumnEmit
import DfDerive.Codegen.LeafProofs
import DfDerive.Codegen.NestedBatch
import DfDerive.Codegen.ProjectedProofs
import DfDerive.Codegen.VecColumns

namespace DfDerive

open Lib

/-! ## Parts of the shared loop -/

/-- The column's declarations, pushes and builders, over the rows of a batch. -/
abbrev ColumnEmit.Emits (E : Fault → Prop) (emit : ColumnEmit) (items : List Operand) (G : Prop)
    (P : List Series → Prop) : Prop :=
  Stages E (emit.decls items.length) emit.push (emit.builders items) items G P

theorem ColumnEmit.Emits.whole {E : Fault → Prop} {build : List Operand → Run (List Series)} {items : List Operand}
    {G : Prop} {P : List Series → Prop} (h : Runs E (build items) G P) :
    (ColumnEmit.wholeColumn build).Emits E items G P :=
  Stages.idle (fun _ _ => rfl) h

section

variable {tr : Traits} {leaf : PrimitiveLeaf} {arm : LeafArm} {name : String} {item : Operand → Option Value}
  {items : List Operand}

/-- The rows of an arm all encode, and the series then has their cells. -/
theorem ArmRuns.stages (h : ArmRuns tr leaf arm name item items)
    (ht : ∀ it ∈ items, ∀ u, item it = some u → LeafTyped leaf u) :
    Stages Fault.FromData (arm.decls items.length) arm.push arm.series items
      (∀ it ∈ items, ∀ u, item it = some u → Encodes tr leaf u)
      (fun s => s.name = name ∧ s.dtype = leaf.dtype ∧
        s.cells = items.map fun it => Series.castCell leaf.dtype (primCell ((item it).bind (encode? tr leaf)))) := by
  obtain ⟨Abs, h0, hpush, hseries⟩ := h
  refine ⟨fun done s => Abs s (done.map fun it => (item it).bind (encode? tr leaf)),
    fun it => ∀ u, item it = some u → Encodes tr leaf u, True, by simp, h0, fun done it rest s hl hs => ?_, fun s hs => ?_⟩
  · have hmem : it ∈ items := by simp [hl]
    have hroom : (done.map fun it => (item it).bind (encode? tr leaf)).length < items.length := by
      rw [hl, List.length_map, List.length_append, List.length_cons]
      omega
    refine Runs.mono ((hpush s _ it hmem hroom hs).runs (ht it hmem)) fun _ t ht => ?_
    show Abs t ((done ++ [it]).map _)
    rw [List.map_append]
    exact ht
  · obtain ⟨out, hout, hn, hd, hc⟩ := hseries s _ (List.length_map _) hs
    rw [hout]
    refine Runs.pure trivial ⟨hn, hd, ?_⟩
    rw [hc, List.map_map]
    rfl

/-- The arm's pushes in the shared loop. -/
theorem ColumnEmit.Emits.rows {G : Prop} {P : Series → Prop}
    (h : Stages Fault.FromData (arm.decls items.length) arm.push arm.series items G P) :
    (ColumnEmit.rowWise arm).Emits Fault.FromData items G (fun out => ∃ s, out = [s] ∧ P s) :=
  Stages.bind h fun s hs => ⟨[s], rfl, s, rfl, hs⟩

/-- The arm in a block of its own. -/
theorem LeafArm.runBlock_runs {G : Prop} {P : Series → Prop} (hname : ∀ s, P s → P (s.withName name))
    (h : Stages Fault.FromData (arm.decls items.length) arm.push arm.series items G P) :
    Run.Spec (arm.runBlock name items) G (fun out => ∃ s, out = [s] ∧ P s) :=
  Stages.runs (Stages.bind h fun s hs => ⟨[s.withName name], rfl, _, rfl, hname s hs⟩)

end

/-! ## Shapes along walks -/

/-- From the rows `vs` the walk `w` leads through what the wrappers of `shape` hold at `us`. -/
structure ShapeFollows (w : Walk) (vs : List Value) (shape : WrapperShape) (us : List Value) : Prop where
  fits : ∀ F, FitsWord i64Max F shape.word us ↔ w.fits F vs
  cells : ∀ f : Value → Cell, us.map (cellOf f shape.word) = vs.map (w.cell f)
  leaves : us.flatMap (leavesOf shape.word) = vs.flatMap w.leaves
  depth : shape.vecDepth = w.depth

/-- The cell of a leaf below `depth` list layers: only a column without layers is cast. -/
def columnCell (tr : Traits) (leaf : PrimitiveLeaf) (depth : Nat) : Value → Cell :=
  if depth = 0 then scalarCell tr leaf else leafCell tr leaf

/-- Only times are cast to null. -/
theorem columnCell_of_ne {tr : Traits} {leaf : PrimitiveLeaf} (h : leaf.dtype ≠ .time) (depth : Nat) :
    columnCell tr leaf depth = leafCell tr leaf := by
  rw [columnCell]
  split
  · funext v
    exact castCell_of_ne h _
  · rfl

theorem VecLayers.depth_pos (shape : VecLayers) : 0 < shape.depth := shape.layers.len_pos

section

variable {tr : Traits} {leaf : PrimitiveLeaf} {name : String} {shape : WrapperShape} {w : Walk} {vs : List Value}
  {access : Operand → Run Operand} {read : Operand → Value} {items : List Operand}

/-- The leaf arm of a shape without `Vec` layers. -/
theorem leafArm_stages (tr : Traits) (name : String) {s : LeafShape} {receiver : Option PrimitiveExprReceiver}
    (hs : s.Counted) (hr : receiver ≠ some .place) (hw : ShapeFollows w vs (.leaf s) (items.map read))
    (ha : Accesses access read s.access.steps items) (ht : ∀ it ∈ items, HasWord (LeafTyped leaf) s.word (read it)) :
    ∃ arm, buildEncoderWithOptionReceiver ⟨access, name, tr⟩ leaf (.leaf s) receiver = .leaf arm ∧
      Stages Fault.FromData (arm.decls items.length) arm.push arm.series items (w.fits (AllEncode tr leaf) vs)
        (fun s => s.name = name ∧ s.dtype = wrapListLayers leaf.dtype w.depth ∧
          s.cells = vs.map (w.cell (columnCell tr leaf w.depth))) := by
  obtain ⟨arm, harm, hruns⟩ := buildEncoder_leaf ⟨access, name, tr⟩ leaf rfl hs hr ha ht
  have hdepth : w.depth = 0 := hw.depth.symm
  have hword : ∀ it ∈ items, HasWord (LeafTyped leaf) s.access.word (read it) := by
    rw [s.word_access]
    exact ht
  have htyped : ∀ it ∈ items, ∀ u, chainFold s.access.steps (read it) = some u → LeafTyped leaf u := by
    intro it hit u hu
    rcases HasWord.chain s.access.steps (hword it hit) with ⟨x, hx, hP, -⟩ | ⟨hnone, -⟩
    · rw [hx] at hu
      cases hu
      exact hP
    · rw [hnone] at hu
      cases hu
  refine ⟨arm, harm, Stages.mono (Stages.congr (hruns.stages htyped) ?_) fun _ out hout => ⟨hout.1, ?_, ?_⟩⟩
  · rw [← hw.fits]
    show _ ↔ FitsWord i64Max (AllEncode tr leaf) s.word _
    rw [← s.word_access, fitsWord_chain_nil]
    constructor
    · intro h u hu
      obtain ⟨v, hv, hu⟩ := List.mem_filterMap.mp hu
      obtain ⟨it, hit, rfl⟩ := List.mem_map.mp hv
      exact h it hit u hu
    · intro h it hit u hu
      exact h u (List.mem_filterMap.mpr ⟨read it, List.mem_map_of_mem hit, hu⟩)
  · rw [hout.2.1, hdepth]
    rfl
  · rw [hout.2.2, ← hw.cells, List.map_map, columnCell, if_pos hdepth]
    refine List.map_congr_left fun it hit => ?_
    show _ = cellOf (scalarCell tr leaf) s.word (read it)
    rw [← s.word_access]
    exact scalar_cell (hword it hit)

/-- The block of a shape with `Vec` layers. -/
theorem vecBlock_runs {layers : VecLayers} (hn : layers.Nullable)
    (hw : ShapeFollows w vs (.vec layers) (items.map read))
    (ha : Accesses access read layers.layers.first.access.steps items)
    (ht : ∀ it ∈ items, HasWord (LeafTyped leaf) layers.word (read it)) :
    Run.Spec (tryBuildVecEncoder tr name leaf layers access items) (w.fits (AllEncode tr leaf) vs)
      (PrimitiveColumn leaf (columnCell tr leaf w.depth) w name vs) := by
  have hdepth : w.depth ≠ 0 := by
    rw [← hw.depth]
    exact Nat.pos_iff_ne_zero.mp layers.depth_pos
  refine Runs.mono (Runs.congr (tryBuildVecEncoder_runs tr name leaf hn ha ht) (hw.fits _)) fun _ out hout => ?_
  obtain ⟨s, rfl, hname, hd, hc⟩ := hout
  refine ⟨s, rfl, hname, ?_, ?_⟩
  · rw [hd, ← hw.depth]
    rfl
  · rw [hc, columnCell, if_neg hdepth]
    exact hw.cells _

/-- A field's encoder follows the walk. -/
theorem encoder_emits (hc : shape.Counted) (hw : ShapeFollows w vs shape (items.map read))
    (ha : Accesses access read shape.firstAccess.steps items)
    (ht : ∀ it ∈ items, HasWord (LeafTyped leaf) shape.word (read it)) :
    (buildEncoder ⟨access, name, tr⟩ leaf shape).emit.Emits Fault.FromData items (w.fits (AllEncode tr leaf) vs)
      (PrimitiveColumn leaf (columnCell tr leaf w.depth) w name vs) := by
  cases shape with
  | leaf s =>
    obtain ⟨arm, harm, hstages⟩ := leafArm_stages _ _ hc (nofun : none ≠ some PrimitiveExprReceiver.place) hw ha ht
    rw [buildEncoder, harm]
    exact .rows hstages
  | vec layers => exact .whole (vecBlock_runs hc hw ha ht)

/-- So does the encoder of a projected element. -/
theorem projectedStandard_emits {env : Env} {leafSpec : TerminalLeafSpec} (hleaf : leafSpec.route = .primitive leaf)
    {receiver : Option PrimitiveExprReceiver} (hr : receiver ≠ some .place) (hc : shape.Counted)
    (hw : ShapeFollows w vs shape (items.map read)) (ha : Accesses access read shape.firstAccess.steps items)
    (ht : ∀ it ∈ items, HasWord (LeafTyped leaf) shape.word (read it)) :
    (buildProjectedStandardEmit env name leafSpec shape access receiver).Emits Fault.FromData items
      (w.fits (AllEncode env.traits leaf) vs) (PrimitiveColumn leaf (columnCell env.traits leaf w.depth) w name vs) := by
  simp only [buildProjectedStandardEmit, hleaf]
  cases shape with
  | leaf s =>
    obtain ⟨arm, harm, hstages⟩ := leafArm_stages env.traits name hc hr hw ha ht
    rw [harm]
    exact .whole (LeafArm.runBlock_runs (fun s hs => ⟨rfl, hs.2⟩) hstages)
  | vec layers => exact .whole (vecBlock_runs hc hw ha ht)

/-- And the encoder of a nested type. -/
theorem nestedEncoder_emits {E : Fault → Prop} {P : Value → Prop} {ctb : CollectThenBulk} (hc : shape.Counted)
    (hw : ShapeFollows w vs shape (items.map read)) (ha : Accesses access read shape.firstAccess.steps items)
    (ht : ∀ it ∈ items, HasWord P shape.word (read it)) (hin : ctb.impl.Within E (vs.flatMap w.leaves)) :
    (ColumnEmit.wholeColumn (buildNestedEncoder shape ctb access)).Emits E items
      (w.fits (PositionsFit shape.hasLeafOption) vs ∧
        NestedAnswers ctb (vs.flatMap w.leaves) (ElementsUsed shape (vs.flatMap w.leaves)))
      (NestedBatch ctb (ElementsUsed shape (vs.flatMap w.leaves)) w.depth (vs.flatMap w.leaves)
        fun f => vs.map (w.cell f)) := by
  rw [← hw.leaves] at hin ⊢
  rw [← hw.depth, ← hw.fits]
  simp only [← hw.cells]
  exact .whole (buildNestedEncoder_batch hc ha ht hin)

end

/-! ## Columns along walks -/

/-- The items of a batch are places of rows, behind references. -/
def RowItems (items : List Operand) : Prop := ∀ it ∈ items, it.strip = .place it.erase

/-- What the walkers of a column below `Vec` layers are given. -/
structure VecColumn where
  shape : VecLayers
  projection : Option LayerProjection
  access : Operand → Run Operand
  leafExpr : Operand → Run Operand

/-- A column whose layers are its own shape's. -/
def VecColumn.plain? (shape : WrapperShape) (access : Operand → Run Operand) : Option VecColumn :=
  match shape with
  | .leaf _ => none
  | .vec layers => some ⟨layers, none, access, pepLeafExpr layers⟩

def ColumnIR.vecColumn? : ColumnIR → Option VecColumn
  | .field column => VecColumn.plain? column.wrapperShape (fieldColumnAccess column)
  | .tupleStatic column => VecColumn.plain? column.wrapperShape (tupleStaticAccess column)
  | .tupleParentOption column => VecColumn.plain? column.wrapperShape (tupleParentOptionAccess column)
  | .tupleParentVec column => some ⟨column.wrapperShape, some (parentVecProjection column), projectedParentAccess column,
      projectedScanLeafExpr column.wrapperShape (parentVecProjection column)⟩

/-- Whether the walker's leaf expression is an `Option`. -/
def VecColumn.leafOptional (vc : VecColumn) (raw : Run Operand) : Bool :=
  match vc.projection with
  | none => pepLeafOptional vc.shape raw
  | some p => projectedScanLeafOptional vc.shape p raw

/-- The nullability of a column is the same by its cached counts and by the expressions of its
    chains: at every list layer and at the leaf. A projection at the leaf finds the parent's
    chain at the front of the joined one. -/
structure VecColumn.NullabilityAgrees (vc : VecColumn) : Prop where
  layer : ∀ l ∈ vc.shape.layers.toList, ∀ base, (accessChainToRef base l.access).hasOption = l.hasOuterValidity
  leaf : ∀ raw, vc.leafOptional raw = vc.shape.hasInnerOption
  splits : ∀ p, vc.projection = some p → p.layer = vc.shape.depth → p.parentAccess.steps <+: vc.shape.innerAccess.steps

/-- The column's encoder follows the walk `w`, whose leaves are below an `Option` when `carried`. -/
structure ColumnIR.Follows (c : ColumnIR) (w : Walk) (carried : Bool) : Prop where
  depth : c.vecDepth = w.depth
  primitive : ∀ (env : Env) (leaf : PrimitiveLeaf) (items : List Operand), c.leafSpec.route = .primitive leaf →
    RowItems items → (∀ it ∈ items, w.typed (LeafTyped leaf) it.erase) →
      (buildColumnEmit env c).Emits Fault.FromData items (w.fits (AllEncode env.traits leaf) (items.map Operand.erase))
        (PrimitiveColumn leaf (columnCell env.traits leaf w.depth) w c.name (items.map Operand.erase))
  nested : ∀ {E : Fault → Prop} {P : Value → Prop} (env : Env) (nested : NestedLeaf) (items : List Operand),
    c.leafSpec.route = .nested nested → RowItems items → (∀ it ∈ items, w.typed P it.erase) →
      (env.impl nested.ty).Within E ((items.map Operand.erase).flatMap w.leaves) →
        ∃ used : Prop, (¬ used → (items.map Operand.erase).flatMap w.leaves = []) ∧
          (buildColumnEmit env c).Emits E items
            (w.fits (PositionsFit carried) (items.map Operand.erase) ∧
              NestedAnswers ⟨env.impl nested.ty, c.name, c.nestedNamePolicy⟩
                ((items.map Operand.erase).flatMap w.leaves) used)
            (NestedBatch ⟨env.impl nested.ty, c.name, c.nestedNamePolicy⟩ used w.depth
              ((items.map Operand.erase).flatMap w.leaves) fun f => (items.map Operand.erase).map (w.cell f))
  scanned : ∀ {P : Value → Prop} (vc : VecColumn) (items : List Operand), c.vecColumn? = some vc → RowItems items →
    (∀ it ∈ items, w.typed P it.erase) →
      ∃ v read item, LeafWalk P v vc.leafExpr item vc.projection vc.shape vc.access read items
  counted : c.shape.Counted
  nullability : ∀ vc, c.vecColumn? = some vc → vc.NullabilityAgrees

theorem erase_read (f : Value → Option Value) (items : List Operand) :
    (items.map Operand.erase).map (fun v => (f v).getD .none) = items.map fun it => (f it.erase).getD .none :=
  List.map_map

theorem leaves_read (f : Value → Option Value) (w : Walk) (items : List Operand) :
    (items.map Operand.erase).flatMap ((Walk.read f).comp w).leaves =
      (items.map fun it => (f it.erase).getD .none).flatMap w.leaves := by
  rw [List.flatMap_map, List.flatMap_map]
  refine List.flatMap_congr fun it _ => ?_
  simp only [Walk.comp, Walk.read, List.flatMap_singleton]

/-- What follows a walk from the values `f` reads from the rows follows it from the rows. -/
theorem ShapeFollows.read {f : Value → Option Value} {w : Walk} {shape : WrapperShape} {us : List Value}
    {items : List Operand} (h : ShapeFollows w (items.map fun it => (f it.erase).getD .none) shape us) :
    ShapeFollows ((Walk.read f).comp w) (items.map Operand.erase) shape us where
  fits F := by
    show _ ↔ w.fits F ((items.map Operand.erase).map fun v => (f v).getD .none)
    rw [h.fits, erase_read]
  cells g := by
    rw [h.cells, List.map_map, List.map_map]
    rfl
  leaves := by rw [h.leaves, leaves_read]
  depth := h.depth.trans (Nat.zero_add _).symm

theorem shapeFollows_word (shape : WrapperShape) (us : List Value) : ShapeFollows (.word shape) us shape us :=
  ⟨fun _ => Iff.rfl, fun _ => rfl, rfl, rfl⟩

section

variable {items : List Operand}

theorem read_typed {P : Value → Prop} {f : Value → Option Value} {w : Walk} {v : Value}
    (h : ((Walk.read f).comp w).typed P v) : f v = some ((f v).getD .none) ∧ w.typed P ((f v).getD .none) := by
  obtain ⟨x, hx, hw⟩ := h
  rw [hx]
  exact ⟨rfl, hw⟩

/-- A column whose access reads `f` places the value for its shape. -/
theorem accesses_place {access : Operand → Run Operand} {f : Value → Option Value} {steps : List AccessStep}
    (h : ∀ it ∈ items, access it = .ok (.place ((f it.erase).getD .none))) :
    Accesses access (fun it => (f it.erase).getD .none) steps items :=
  fun it hit => ⟨_, h it hit, .ref _ _⟩

/-- A column with a shape of its own is scanned along the word of the shape. -/
theorem plain_scanned {P : Value → Prop} {shape : WrapperShape} {access : Operand → Run Operand} {read : Operand → Value}
    {vc : VecColumn} (hvc : VecColumn.plain? shape access = some vc) (hc : shape.Counted)
    (ha : Accesses access read shape.firstAccess.steps items) (ht : ∀ it ∈ items, HasWord P shape.word (read it)) :
    ∃ v read item, LeafWalk P v vc.leafExpr item vc.projection vc.shape vc.access read items := by
  cases shape with
  | leaf s => cases hvc
  | vec layers =>
    cases hvc
    exact ⟨_, read, _, leafWalk_word hc ha ht⟩

theorem accessChainToRef_optional (base : Run Operand) (chain : AccessChain) :
    (accessChainToRef base chain).hasOption = decide (0 < chain.optionLayers) := by
  rw [accessChainToRef_hasOption]
  exact decide_eq_decide.mpr optionLayers_pos.symm

theorem VecLayers.Nullable.layer_agrees {shape : VecLayers} (hn : shape.Nullable) : ∀ l ∈ shape.layers.toList,
    ∀ base, (accessChainToRef base l.access).hasOption = l.hasOuterValidity := by
  intro l hl base
  rw [accessChainToRef_optional]
  exact decide_eq_decide.mpr (hn.outer l hl).symm

theorem pepLeafOptional_eq {shape : VecLayers} (hn : shape.Nullable) (raw : Run Operand) :
    pepLeafOptional shape raw = shape.hasInnerOption := by
  have hflag : shape.hasInnerOption = decide (0 < shape.innerAccess.optionLayers) := decide_eq_decide.mpr hn.inner
  rw [hflag, pepLeafOptional]
  by_cases hsingle : shape.innerAccess.isSinglePlainOption = true
  · rw [hsingle, Bool.or_true, if_pos rfl, AccessChain.optionLayers, singlePlainOption_steps hsingle]
    rfl
  · rw [Bool.not_eq_true] at hsingle
    rw [hsingle, Bool.or_false]
    split
    · rename_i hempty
      rw [AccessChain.optionLayers, List.isEmpty_iff.mp hempty]
      rfl
    · exact accessChainToRef_optional raw shape.innerAccess

/-- A column whose layers are its own shape's. -/
theorem plain_nullability {shape : WrapperShape} {access : Operand → Run Operand} {vc : VecColumn}
    (hvc : VecColumn.plain? shape access = some vc) (hc : shape.Counted) : vc.NullabilityAgrees := by
  cases shape with
  | leaf s => cases hvc
  | vec layers =>
    cases hvc
    have hn : layers.Nullable := hc
    exact ⟨hn.layer_agrees, pepLeafOptional_eq hn, nofun⟩

theorem follows_field (column : FieldColumn) (hc : column.wrapperShape.Counted) :
    (ColumnIR.field column).Follows ((Walk.read column.source.value?).comp (.word column.wrapperShape))
      column.wrapperShape.hasLeafOption where
  depth := (Nat.zero_add _).symm
  primitive env leaf items hroute hrows ht := by
    have haccess : ∀ it ∈ items, fieldColumnAccess column it = .ok (.place ((column.source.value? it.erase).getD .none)) :=
      fun it hit => fieldSourceAccess_eq (hrows it hit) (read_typed (ht it hit)).1
    have hroute : column.leafSpec.route = .primitive leaf := hroute
    show (buildFieldColumnEmit env column).Emits _ _ _ _
    simp only [buildFieldColumnEmit, hroute]
    exact encoder_emits hc (shapeFollows_word _ _).read (accesses_place haccess) fun it hit => (read_typed (ht it hit)).2
  nested env nested items hroute hrows ht hin := by
    have haccess : ∀ it ∈ items, fieldColumnAccess column it = .ok (.place ((column.source.value? it.erase).getD .none)) :=
      fun it hit => fieldSourceAccess_eq (hrows it hit) (read_typed (ht it hit)).1
    have hroute : column.leafSpec.route = .nested nested := hroute
    refine ⟨_, elementsUsed_not column.wrapperShape, ?_⟩
    show (buildFieldColumnEmit env column).Emits _ _ _ _
    simp only [buildFieldColumnEmit, hroute]
    exact nestedEncoder_emits hc (shapeFollows_word _ _).read (accesses_place haccess)
      (fun it hit => (read_typed (ht it hit)).2) hin
  scanned vc items hvc hrows ht :=
    plain_scanned hvc hc (accesses_place fun it hit => fieldSourceAccess_eq (hrows it hit) (read_typed (ht it hit)).1)
      fun it hit => (read_typed (ht it hit)).2
  counted := hc
  nullability _ hvc := plain_nullability hvc hc

/-- The value a projected column reads in place. -/
def TupleStaticColumn.value? (column : TupleStaticColumn) (row : Value) : Option Value :=
  (column.root.value? row).bind (pathValue column.path.toList)

theorem follows_tupleStatic (column : TupleStaticColumn) (hc : column.wrapperShape.Counted)
    (hpolicy : column.nestedNamePolicy = .field) :
    (ColumnIR.tupleStatic column).Follows ((Walk.read column.value?).comp (.word column.wrapperShape))
      column.wrapperShape.hasLeafOption where
  depth := (Nat.zero_add _).symm
  primitive env leaf items hroute hrows ht := by
    have haccess : ∀ it ∈ items, tupleStaticAccess column it = .ok (.place ((column.value? it.erase).getD .none)) := by
      intro it hit
      obtain ⟨t, hroot, hpath⟩ := Option.bind_eq_some_iff.mp (read_typed (ht it hit)).1
      exact tupleStaticAccess_eq (hrows it hit) hroot hpath
    exact projectedStandard_emits hroute nofun hc (shapeFollows_word _ _).read (accesses_place haccess)
      fun it hit => (read_typed (ht it hit)).2
  nested env nested items hroute hrows ht hin := by
    have haccess : ∀ it ∈ items, tupleStaticAccess column it = .ok (.place ((column.value? it.erase).getD .none)) := by
      intro it hit
      obtain ⟨t, hroot, hpath⟩ := Option.bind_eq_some_iff.mp (read_typed (ht it hit)).1
      exact tupleStaticAccess_eq (hrows it hit) hroot hpath
    have hroute : column.leafSpec.route = .nested nested := hroute
    have hfield : (ColumnIR.tupleStatic column).nestedNamePolicy = .field := hpolicy
    refine ⟨_, elementsUsed_not column.wrapperShape, ?_⟩
    rw [hfield]
    show (buildTupleStaticEmit env column).Emits _ _ _ _
    simp only [buildTupleStaticEmit, buildProjectedStandardEmit, hroute]
    exact nestedEncoder_emits hc (shapeFollows_word _ _).read (accesses_place haccess)
      (fun it hit => (read_typed (ht it hit)).2) hin
  scanned vc items hvc hrows ht := by
    have haccess : ∀ it ∈ items, tupleStaticAccess column it = .ok (.place ((column.value? it.erase).getD .none)) := by
      intro it hit
      obtain ⟨t, hroot, hpath⟩ := Option.bind_eq_some_iff.mp (read_typed (ht it hit)).1
      exact tupleStaticAccess_eq (hrows it hit) hroot hpath
    exact plain_scanned hvc hc (accesses_place haccess) fun it hit => (read_typed (ht it hit)).2
  counted := hc
  nullability _ hvc := plain_nullability hvc hc

/-! ### Below `Option`s -/

theorem composeOption_word (element : WrapperShape) :
    (composeOptionWithElement element).word = .option :: element.word := by
  cases element with
  | leaf s =>
    cases s with
    | bare => rfl
    | optional n access =>
      simp [composeOptionWithElement, LeafShape.fromOptionAccess, WrapperShape.word, LeafShape.word, AccessChain.word,
        prependOptionAccess, AccessStep.word]
  | vec layers => rfl

theorem composeOption_firstAccess (element : WrapperShape) :
    (composeOptionWithElement element).firstAccess.steps = .option :: element.firstAccess.steps := by
  cases element with
  | leaf s =>
    cases s with
    | bare => rfl
    | optional n access =>
      simp [composeOptionWithElement, LeafShape.fromOptionAccess, WrapperShape.firstAccess, LeafShape.access,
        prependOptionAccess]
  | vec layers => rfl

theorem composeOption_counted {element : WrapperShape} (h : element.Counted) :
    (composeOptionWithElement element).Counted := by
  cases element with
  | leaf s =>
    cases s with
    | bare => exact ⟨rfl, Nat.one_pos⟩
    | optional n access =>
      have hn : n = access.optionLayers := h.1
      have : 1 + n ≠ 0 := by omega
      simp only [composeOptionWithElement, LeafShape.fromOptionAccess, if_neg this]
      refine ⟨?_, by omega⟩
      rw [prependOptionAccess, AccessChain.optionLayers_cons_option, hn, Nat.add_comm]
  | vec layers =>
    have h : layers.Nullable := h
    refine ⟨fun l hl => ?_, h.inner⟩
    rcases List.mem_cons.mp hl with rfl | hl
    · exact iff_of_true (Nat.succ_pos _) (by simp [composeFirstLayer, prependOptionAccess])
    · exact h.outer l (List.mem_cons_of_mem _ hl)

theorem composeOption_depth (element : WrapperShape) : (composeOptionWithElement element).vecDepth = element.vecDepth := by
  cases element with
  | leaf s => cases s <;> rfl
  | vec layers => rfl

/-- An `Option` lies above an element's leaf, given whether one lies above the element. -/
def carriedOption (above : Bool) : WrapperShape → Bool
  | .leaf s => above || (WrapperShape.leaf s).hasLeafOption
  | .vec layers => layers.hasInnerOption

theorem carriedOption_false (element : WrapperShape) : carriedOption false element = element.hasLeafOption := by
  cases element <;> rfl

theorem composeOption_leafOption (element : WrapperShape) :
    (composeOptionWithElement element).hasLeafOption = carriedOption true element := by
  cases element with
  | leaf s =>
    cases s with
    | bare => rfl
    | optional n access =>
      have : 1 + n ≠ 0 := by omega
      simp only [composeOptionWithElement, LeafShape.fromOptionAccess, if_neg this]
      rfl
  | vec layers => rfl

/-- The cell of a chain is the one of the value it leads to. -/
theorem cellOf_chain {P : Value → Prop} (f : Value → Cell) {access : AccessChain} {v : Value}
    (h : HasWord P access.word v) :
    cellOf f access.word v = (chainFold access.steps v).elim .null f := by
  rcases HasWord.chain access.steps h with ⟨t, ht, -, -, hcell⟩ | ⟨ht, -, -, hcell⟩
  · rw [ht]
    exact hcell f
  · rw [ht]
    exact hcell f

/-- The composed shape, at the elements of the tuples that are there. -/
theorem shapeFollows_parentOption {P : Value → Prop} {n : Nat} {access : AccessChain} {path : List TupleProjectionStep}
    {element : WrapperShape} {us : List Value}
    (ht : ∀ v ∈ us, (elementWalk (.leaf (.optional n access)) (pathValue path) element).typed P v) :
    ShapeFollows (elementWalk (.leaf (.optional n access)) (pathValue path) element) us (composeOptionWithElement element)
      (us.map fun v => parentOptionValue (chainFold access.steps v) path) := by
  have hbelow : (us.map fun v => parentOptionValue (chainFold access.steps v) path).flatMap (below .option) =
      (us.filterMap (chainFold access.steps)).map fun t => (pathValue path t).getD .none := by
    clear ht
    induction us with
    | nil => rfl
    | cons v us ih =>
      rw [List.map_cons, List.flatMap_cons, ih]
      cases hv : chainFold access.steps v with
      | none => rw [List.filterMap_cons_none hv]; rfl
      | some t => rw [List.filterMap_cons_some hv]; rfl
  refine ⟨fun F => ?_, fun f => ?_, ?_, ?_⟩
  · rw [composeOption_word]
    show _ ↔ FitsWord i64Max (fun ts => FitsWord i64Max F element.word (ts.map fun t => (pathValue path t).getD .none))
      access.word us
    rw [fitsWord_chain_nil, FitsWord, hbelow]
    simp
  · rw [List.map_map]
    refine List.map_congr_left fun v hv => ?_
    rw [composeOption_word]
    have hcell := cellOf_chain (fun t => cellOf f element.word ((pathValue path t).getD .none)) (ht v hv)
    refine Eq.trans ?_ hcell.symm
    show cellOf f (.option :: element.word) (parentOptionValue (chainFold access.steps v) path) = _
    cases chainFold access.steps v <;> rfl
  · rw [elementWalk_leaves]
    show _ = ((us.flatMap (leavesOf access.word)).map _).flatMap _
    have hleaves := leavesOf_chains access.steps us
    rw [map_reduceOption] at hleaves
    rw [hleaves, ← hbelow, List.flatMap_assoc]
    refine List.flatMap_congr fun v _ => ?_
    rw [composeOption_word]
    rfl
  · rw [composeOption_depth]
    exact ((Nat.zero_add _).trans (Nat.zero_add _)).symm

theorem follows_tupleParentOption (column : TupleParentOptionColumn) {n : Nat} {steps : List AccessStep}
    {element : WrapperShape} (hsteps : column.parentAccess.steps = .option :: steps)
    (hshape : column.wrapperShape = composeOptionWithElement element) (hc : element.Counted)
    (hfirst : ∀ c', element.firstAccess.steps ≠ .smartPtr :: c') (hpolicy : column.nestedNamePolicy = .field) :
    (ColumnIR.tupleParentOption column).Follows
      ((Walk.read column.root.value?).comp
        (elementWalk (.leaf (.optional n column.parentAccess)) (pathValue column.path.toList) element))
      (carriedOption true element) := by
  have hcounted : column.wrapperShape.Counted := hshape ▸ composeOption_counted hc
  have haccess : ∀ {P : Value → Prop} {items : List Operand}, RowItems items → (∀ it ∈ items, ((Walk.read column.root.value?).comp
      (elementWalk (.leaf (.optional n column.parentAccess)) (pathValue column.path.toList) element)).typed P it.erase) →
      Accesses (tupleParentOptionAccess column) (fun it => parentOptionValue
        (chainFold column.parentAccess.steps ((column.root.value? it.erase).getD .none)) column.path.toList)
        column.wrapperShape.firstAccess.steps items := by
    intro P items hrows ht it hit
    rw [hshape, composeOption_firstAccess]
    obtain ⟨hroot, htyped⟩ := read_typed (ht it hit)
    refine tupleParentOptionAccess_eq hsteps (hrows it hit) hroot htyped (fun t hp => ?_) hfirst
    obtain ⟨x, hx, -⟩ := hp
    exact Option.isSome_iff_exists.mpr ⟨x, hx⟩
  have hfollows : ∀ {P : Value → Prop} {items : List Operand}, (∀ it ∈ items, ((Walk.read column.root.value?).comp
      (elementWalk (.leaf (.optional n column.parentAccess)) (pathValue column.path.toList) element)).typed P it.erase) →
      ShapeFollows ((Walk.read column.root.value?).comp
        (elementWalk (.leaf (.optional n column.parentAccess)) (pathValue column.path.toList) element))
        (items.map Operand.erase) column.wrapperShape (items.map fun it => parentOptionValue
          (chainFold column.parentAccess.steps ((column.root.value? it.erase).getD .none)) column.path.toList) := by
    intro P items ht
    rw [hshape]
    have htyped : ∀ v ∈ items.map fun it => (column.root.value? it.erase).getD .none,
        (elementWalk (.leaf (.optional n column.parentAccess)) (pathValue column.path.toList) element).typed P v := by
      intro v hv
      obtain ⟨it, hit, rfl⟩ := List.mem_map.mp hv
      exact (read_typed (ht it hit)).2
    have h := shapeFollows_parentOption htyped
    rw [List.map_map] at h
    exact h.read
  have hword : ∀ {P : Value → Prop} {items : List Operand}, (∀ it ∈ items, ((Walk.read column.root.value?).comp
      (elementWalk (.leaf (.optional n column.parentAccess)) (pathValue column.path.toList) element)).typed P it.erase) →
      ∀ it ∈ items, HasWord P column.wrapperShape.word (parentOptionValue
        (chainFold column.parentAccess.steps ((column.root.value? it.erase).getD .none)) column.path.toList) := by
    intro P items ht it hit
    rw [hshape, composeOption_word]
    obtain ⟨-, htyped⟩ := read_typed (ht it hit)
    rcases HasWord.chain column.parentAccess.steps htyped with ⟨t, htup, ⟨x, hx, hP⟩, -⟩ | ⟨htup, -⟩
    · rw [htup]
      show HasWord P element.word ((pathValue column.path.toList t).getD .none)
      rw [hx]
      exact hP
    · rw [htup]
      trivial
  refine ⟨?_, fun env leaf items hroute hrows ht => ?_, fun env nested items hroute hrows ht hin => ?_,
    fun vc items hvc hrows ht => plain_scanned hvc hcounted (haccess hrows ht) (hword ht),
    hcounted, fun _ hvc => plain_nullability hvc hcounted⟩
  · show column.wrapperShape.vecDepth = _
    rw [hshape, composeOption_depth]
    exact ((Nat.zero_add _).trans ((Nat.zero_add _).trans (Nat.zero_add _))).symm
  · exact projectedStandard_emits hroute (tupleParentOptionSomeReceiver_ne column) hcounted (hfollows ht) (haccess hrows ht)
      (hword ht)
  · have hroute : column.leafSpec.route = .nested nested := hroute
    have hfield : (ColumnIR.tupleParentOption column).nestedNamePolicy = .field := hpolicy
    refine ⟨_, elementsUsed_not column.wrapperShape, ?_⟩
    rw [hfield, ← composeOption_leafOption, ← hshape]
    show (buildTupleParentOptionEmit env column).Emits _ _ _ _
    simp only [buildTupleParentOptionEmit, buildProjectedStandardEmit, hroute]
    exact nestedEncoder_emits hcounted (hfollows ht) (haccess hrows ht) (hword ht) hin

/-! ### Below `Vec`s -/

theorem composeVec_innerOption {parent : VecLayers} {element : WrapperShape} (hc : element.Counted) :
    (composeVecParentWithElement parent element).hasInnerOption = carriedOption parent.hasInnerOption element := by
  cases element with
  | leaf s =>
    cases s with
    | bare => exact (Bool.or_false _).symm
    | optional n access =>
      have hpos : 0 < n := hc.2
      have : 0 < parent.innerOptionLayers + n := by omega
      simp [composeVecParentWithElement, VecLayers.hasInnerOption, carriedOption, WrapperShape.hasLeafOption, this]
  | vec layers => rfl

/-- The flag of a projection at the leaf is set by either of the joined chains. -/
theorem projectedLeafOptional_eq (p : LayerProjection) (elementAccess : AccessChain) (raw : Run Operand) :
    projectedLeafOptional p elementAccess raw =
      decide (0 < p.parentAccess.optionLayers + elementAccess.optionLayers) := by
  unfold projectedLeafOptional
  by_cases hparent : 0 < p.parentAccess.optionLayers
  · rw [if_pos hparent]
    exact (decide_eq_true (by omega)).symm
  · rw [if_neg hparent]
    by_cases helem : 0 < elementAccess.optionLayers
    · rw [if_pos helem]
      exact (decide_eq_true (by omega)).symm
    · rw [if_neg helem, accessChainToRef_optional]
      exact decide_eq_decide.mpr (by omega)

/-- The shape of an element below a parent with `Vec` layers. -/
theorem composed_nullability {parent : VecLayers} {element : WrapperShape} {p : LayerProjection} {vc : VecColumn}
    (hn : parent.Nullable) (hc : element.Counted) (hseam : Seam p parent)
    (hshape : vc.shape = composeVecParentWithElement parent element) (hp : vc.projection = some p) :
    vc.NullabilityAgrees := by
  obtain ⟨shape, projection, access, leafExpr⟩ := vc
  subst hshape hp
  have hnull := composeVecParentWithElement_nullable element hn hc
  refine ⟨hnull.layer_agrees, fun raw => ?_, fun p' hp' hlayer => ?_⟩
  · show projectedScanLeafOptional (composeVecParentWithElement parent element) p raw = _
    unfold projectedScanLeafOptional
    cases element with
    | leaf s =>
      rw [leafProjectionAccess_leaf hseam]
      show projectedLeafOptional p s.access raw = decide (0 < (composeVecParentWithElement parent (.leaf s)).innerOptionLayers)
      rw [projectedLeafOptional_eq, hseam.access]
      refine decide_eq_decide.mpr ?_
      rw [hnull.inner, compose_leaf, optionLayers_concat]
    | vec element =>
      rw [leafProjectionAccess_vec hseam]
      exact pepLeafOptional_eq hnull raw
  · cases hp'
    cases element with
    | leaf s =>
      show p.parentAccess.steps <+: (composeVecParentWithElement parent (.leaf s)).innerAccess.steps
      rw [compose_leaf, hseam.access]
      exact List.prefix_append _ _
    | vec element => exact absurd hlayer (projection_before_leaf hseam element)

theorem follows_tupleParentVec (column : TupleParentVecColumn) {parent : VecLayers} {element : WrapperShape}
    (hshape : column.wrapperShape = composeVecParentWithElement parent element)
    (hlayer : column.projectionLayer = parent.depth) (hinner : column.parentInnerAccess = parent.innerAccess)
    (hn : parent.Nullable) (hc : element.Counted) (hfirst : ∀ c', element.firstAccess.steps ≠ .smartPtr :: c')
    (hpolicy : column.nestedNamePolicy = .field) :
    (ColumnIR.tupleParentVec column).Follows
      ((Walk.read column.root.value?).comp (elementWalk (.vec parent) (parentVecProjection column).select element))
      (carriedOption parent.hasInnerOption element) := by
  have hseam : Seam (parentVecProjection column) parent := ⟨hlayer, hinner⟩
  have hdepth : column.wrapperShape.depth =
      ((Walk.read column.root.value?).comp (elementWalk (.vec parent) (parentVecProjection column).select element)).depth := by
    rw [hshape, composeVec_depth]
    show _ = 0 + (parent.depth + (0 + element.vecDepth))
    omega
  have haccess : ∀ {P : Value → Prop} {items : List Operand}, RowItems items → (∀ it ∈ items, ((Walk.read column.root.value?).comp
      (elementWalk (.vec parent) (parentVecProjection column).select element)).typed P it.erase) →
      Accesses (projectedParentAccess column) (fun it => (column.root.value? it.erase).getD .none)
        parent.layers.first.access.steps items :=
    fun hrows ht => accesses_place fun it hit => fieldSourceAccess_eq (hrows it hit) (read_typed (ht it hit)).1
  refine ⟨hdepth, fun env leaf items hroute hrows ht => ?_, fun env nested items hroute hrows ht hin => ?_,
    fun vc items hvc hrows ht => ?_, ?_, fun vc hvc => ?_⟩
  · have hroute : column.leafSpec.route = .primitive leaf := hroute
    show (buildParentVecProjectionEmit env column).Emits _ _ _ _
    simp only [buildParentVecProjectionEmit, hroute]
    have hrun := emitProjectedVecPrimitive_runs env.traits leaf column.name hn hc hseam hfirst (haccess hrows ht)
      fun it hit => (read_typed (ht it hit)).2
    rw [← hshape, ← erase_read] at hrun
    have hpos : columnCell env.traits leaf ((Walk.read column.root.value?).comp
        (elementWalk (.vec parent) (parentVecProjection column).select element)).depth = leafCell env.traits leaf := by
      rw [← hdepth, columnCell, if_neg (Nat.pos_iff_ne_zero.mp column.wrapperShape.depth_pos)]
    rw [hpos]
    refine .whole (Runs.mono hrun fun _ out hout => ?_)
    obtain ⟨s, rfl, hname, hd, hcells⟩ := hout
    refine ⟨s, rfl, hname, hd.trans ?_, ?_⟩
    · exact congrArg (wrapListLayers leaf.dtype) (Nat.zero_add _).symm
    · rw [hcells, List.map_map]
      rfl
  · have hroute : column.leafSpec.route = .nested nested := hroute
    have hfield : (ColumnIR.tupleParentVec column).nestedNamePolicy = .field := hpolicy
    refine ⟨_, fun h => not_not.mp h, ?_⟩
    rw [hfield, ← composeVec_innerOption hc]
    show (buildParentVecProjectionEmit env column).Emits _ _ _ _
    simp only [buildParentVecProjectionEmit, hroute]
    have hleaves := leaves_read column.root.value? (elementWalk (.vec parent) (parentVecProjection column).select element) items
    rw [hleaves] at hin ⊢
    have hrun := emitProjectedVecNested_batch column.name hn hc hseam hfirst (haccess hrows ht)
      (fun it hit => (read_typed (ht it hit)).2) hin
    rw [← hshape] at hrun
    refine .whole (Runs.mono (Runs.congr hrun ?_) fun _ out hout => ?_)
    · rw [← hshape, ← erase_read]
      exact Iff.rfl
    · have hd : ((Walk.read column.root.value?).comp (elementWalk (.vec parent) (parentVecProjection column).select element)).depth =
          (elementWalk (.vec parent) (parentVecProjection column).select element).depth := Nat.zero_add _
      rw [hd]
      refine hout.cells_congr fun f => ?_
      rw [List.map_map, List.map_map]
      rfl
  · cases hvc
    have hwalk := leafWalk_element hn hc hseam hfirst (haccess hrows ht) fun it hit => (read_typed (ht it hit)).2
    rw [← hshape] at hwalk
    exact ⟨_, _, _, hwalk⟩
  · show column.wrapperShape.Nullable
    rw [hshape]
    exact composeVecParentWithElement_nullable element hn hc
  · cases hvc
    exact composed_nullability hn hc hseam hshape rfl

end

end DfDerive
