/-
  DfDerive.Codegen.BorrowedItems — owned and borrowed rows convert alike.

  The body of `columnar_to_dataframe` and of `columnar_from_refs` is the same text; over
  `&[&Self]` every access finds its field through one more reference. A loop over references
  to the items is the loop whose access goes through the reference (the `_refs` lemmas), and
  no access of a column sees the difference.
-/

import DfDerive.Codegen.Columnar

namespace DfDerive

open Lib

section

variable {access : Operand → Run Operand} {items : List Operand}

theorem precount_refs (projection : Option LayerProjection) (shape : VecLayers) :
    ShapePrecount.build projection shape access (items.map .ref) =
      ShapePrecount.build projection shape (fun it => access (.ref it)) items :=
  List.foldlM_map

theorem scan_refs {σ : Type} (s : ShapeScan σ) (shape : VecLayers) (st : Bufs σ shape.layers.toList) :
    s.build shape access (items.map .ref) st = s.build shape (fun it => access (.ref it)) items st :=
  List.foldlM_map

theorem pepEmit_refs (pep : PerElementPush) (leafBody : VecLeafBufs → Operand → Run VecLeafBufs)
    (projection : Option LayerProjection) (shape : VecLayers) :
    pepEmit pep leafBody projection shape access (items.map .ref) =
      pepEmit pep leafBody projection shape (fun it => access (.ref it)) items := by
  simp only [pepEmit, precount_refs, scan_refs]

theorem nestedVecEmit_refs (ctb : CollectThenBulk) (leafBody : NestedBufs → Operand → Run NestedBufs)
    (projection : Option LayerProjection) (shape : VecLayers) :
    nestedVecEmit ctb leafBody projection shape access (items.map .ref) =
      nestedVecEmit ctb leafBody projection shape (fun it => access (.ref it)) items := by
  simp only [nestedVecEmit, precount_refs, scan_refs]

theorem boolBareDepth1Body_refs (dtype : DataType) :
    boolBareDepth1Body dtype access (items.map .ref) = boolBareDepth1Body dtype (fun it => access (.ref it)) items := by
  simp only [boolBareDepth1Body, List.foldlM_map]
  rfl

theorem tryBuildVecEncoder_refs (tr : Traits) (name : String) (leaf : PrimitiveLeaf) (shape : VecLayers) :
    tryBuildVecEncoder tr name leaf shape access (items.map .ref) =
      tryBuildVecEncoder tr name leaf shape (fun it => access (.ref it)) items := by
  unfold tryBuildVecEncoder vecEncoderBoolBare vecEncoder vecEmitPep
  simp only [pepEmit_refs, boolBareDepth1Body_refs]

theorem buildNestedEncoder_refs (ctb : CollectThenBulk) (shape : WrapperShape) :
    buildNestedEncoder shape ctb access (items.map .ref) =
      buildNestedEncoder shape ctb (fun it => access (.ref it)) items := by
  unfold buildNestedEncoder vecEmitCtb ctbLeafScanDepth0
  simp only [nestedVecEmit_refs, List.foldlM_map, List.length_map]

theorem runBlock_refs (arm : LeafArm) (name : String) (hpush : ∀ s it, arm.push s (.ref it) = arm.push s it) :
    arm.runBlock name (items.map .ref) = arm.runBlock name items := by
  simp only [LeafArm.runBlock, List.foldlM_map, List.length_map, hpush]

/-- A row-wise arm whose access does not see a reference to the row. -/
theorem buildLeaf_ref {ctx : LeafCtx} (hacc : ∀ it, ctx.access (.ref it) = ctx.access it) (leaf : PrimitiveLeaf)
    (kind : LeafArmKind) (s : LeafBufs) (it : Operand) :
    (buildLeaf ctx leaf kind).push s (.ref it) = (buildLeaf ctx leaf kind).push s it := by
  cases leaf <;> cases kind <;>
    simp only [buildLeaf, numericLeaf, stringLeaf, boolLeaf, binaryLeaf, asStringLeaf, asStrLeaf, viewLeaf, datetimeLeaf,
      naiveDatetimeLeaf, naiveDateLeaf, naiveTimeLeaf, durationLeaf, decimalLeaf, mappedCastLeaf, mappedPush, hacc]

theorem encoder_push_ref {ctx : LeafCtx} (hacc : ∀ it, ctx.access (.ref it) = ctx.access it) {leaf : PrimitiveLeaf}
    {shape : WrapperShape} {receiver : Option PrimitiveExprReceiver} {arm : LeafArm}
    (harm : buildEncoderWithOptionReceiver ctx leaf shape receiver = .leaf arm) (s : LeafBufs) (it : Operand) :
    arm.push s (.ref it) = arm.push s it := by
  have hchain : ∀ access, (wrapOptionAccessChainPrimitive ctx leaf access).push s (.ref it) =
      (wrapOptionAccessChainPrimitive ctx leaf access).push s it := by
    intro access
    have hlocal : ∀ it, multiOptionLocal ctx leaf access (.ref it) = multiOptionLocal ctx leaf access it := by
      intro it
      simp only [multiOptionLocal, hacc]
    unfold wrapOptionAccessChainPrimitive
    split
    · simp only [wrapOptionAccessChainAsStr, hacc]
    · exact buildLeaf_ref hlocal _ _ _ _
  unfold buildEncoderWithOptionReceiver at harm
  split at harm
  · cases harm
    exact buildLeaf_ref hacc _ _ _ _
  · split at harm
    · cases harm
      exact buildLeaf_ref hacc _ _ _ _
    · cases harm
      exact hchain _
  · cases harm

end

/-! ## Columns -/

/-- The column does not see a reference to the row. -/
structure ColumnEmit.SeesThrough (emit : ColumnEmit) : Prop where
  push : ∀ s it, emit.push s (.ref it) = emit.push s it
  builders : ∀ items s, emit.builders (items.map .ref) s = emit.builders items s

theorem ColumnEmit.SeesThrough.whole {build : List Operand → Run (List Series)}
    (h : ∀ items, build (items.map .ref) = build items) : (ColumnEmit.wholeColumn build).SeesThrough :=
  ⟨fun _ _ => rfl, fun items _ => h items⟩

theorem nestedEmit_seesThrough {ctb : CollectThenBulk} {shape : WrapperShape} {access : Operand → Run Operand}
    (hacc : (fun it => access (.ref it)) = access) :
    (ColumnEmit.wholeColumn (buildNestedEncoder shape ctb access)).SeesThrough := by
  refine .whole fun items => ?_
  rw [buildNestedEncoder_refs, hacc]

theorem encoder_seesThrough {ctx : LeafCtx} {leaf : PrimitiveLeaf} {shape : WrapperShape}
    {receiver : Option PrimitiveExprReceiver} (hacc : (fun it => ctx.access (.ref it)) = ctx.access) :
    (buildEncoderWithOptionReceiver ctx leaf shape receiver).emit.SeesThrough := by
  cases henc : buildEncoderWithOptionReceiver ctx leaf shape receiver with
  | leaf arm => exact ⟨encoder_push_ref (congrFun hacc) henc, fun _ _ => rfl⟩
  | multi columnar =>
    refine .whole fun items => ?_
    unfold buildEncoderWithOptionReceiver at henc
    split at henc
    · cases henc
    · split at henc <;> cases henc
    · cases henc
      rw [tryBuildVecEncoder_refs, hacc]

theorem projectedStandard_seesThrough {env : Env} {name : String} {leafSpec : TerminalLeafSpec} {shape : WrapperShape}
    {receiver : Option PrimitiveExprReceiver} {access : Operand → Run Operand}
    (hacc : (fun it => access (.ref it)) = access) :
    (buildProjectedStandardEmit env name leafSpec shape access receiver).SeesThrough := by
  unfold buildProjectedStandardEmit
  cases leafSpec.route with
  | nested nested => exact nestedEmit_seesThrough hacc
  | primitive leaf =>
    have hsees := @encoder_seesThrough ⟨access, name, env.traits⟩ leaf shape receiver hacc
    simp only
    cases henc : buildEncoderWithOptionReceiver ⟨access, name, env.traits⟩ leaf shape receiver with
    | leaf arm =>
      rw [henc] at hsees
      exact .whole fun items => runBlock_refs arm name hsees.push
    | multi columnar =>
      rw [henc] at hsees
      exact .whole fun items => hsees.builders items .new

theorem parentVec_seesThrough (env : Env) (column : TupleParentVecColumn) :
    (buildParentVecProjectionEmit env column).SeesThrough := by
  unfold buildParentVecProjectionEmit
  cases column.leafSpec.route with
  | nested nested => exact .whole fun items => nestedVecEmit_refs _ _ _ _
  | primitive leaf =>
    refine .whole fun items => ?_
    simp only [buildProjectedVecPrimitive, emitProjectedVecPrimitive, pepEmit_refs]
    rfl

theorem buildColumnEmit_seesThrough (env : Env) (c : ColumnIR) : (buildColumnEmit env c).SeesThrough := by
  cases c with
  | field column =>
    show (buildFieldColumnEmit env column).SeesThrough
    unfold buildFieldColumnEmit
    cases column.leafSpec.route with
    | nested nested => exact nestedEmit_seesThrough rfl
    | primitive leaf => exact encoder_seesThrough rfl
  | tupleStatic column => exact projectedStandard_seesThrough rfl
  | tupleParentOption column => exact projectedStandard_seesThrough rfl
  | tupleParentVec column => exact parentVec_seesThrough env column

/-! ## Batches -/

section

variable {emits : List ColumnEmit}

theorem pushRowWise_ref (h : ∀ emit ∈ emits, emit.SeesThrough) (ss : List LeafBufs) (it : Operand) :
    pushRowWise emits ss (.ref it) = pushRowWise emits ss it := by
  induction emits generalizing ss with
  | nil => rfl
  | cons emit emits ih =>
    cases ss with
    | nil => rfl
    | cons s ss =>
      rw [pushRowWise, pushRowWise, (h emit List.mem_cons_self).push, ih fun e he => h e (List.mem_cons_of_mem _ he)]

theorem runBuilders_refs (h : ∀ emit ∈ emits, emit.SeesThrough) (items : List Operand) (ss : List LeafBufs) :
    runBuilders (items.map .ref) emits ss = runBuilders items emits ss := by
  induction emits generalizing ss with
  | nil => rfl
  | cons emit emits ih =>
    cases ss with
    | nil => rfl
    | cons s ss =>
      rw [runBuilders, runBuilders, (h emit List.mem_cons_self).builders, ih fun e he => h e (List.mem_cons_of_mem _ he)]

theorem columnarParts_refs (h : ∀ emit ∈ emits, emit.SeesThrough) (items : List Operand) :
    columnarParts emits (items.map .ref) = columnarParts emits items := by
  simp only [columnarParts, List.foldlM_map, List.length_map, runBuilders_refs h, pushRowWise_ref h]

/-- The two entry points convert the same rows alike. -/
theorem columnarMethodBody_refs (env : Env) (ir : StructIR) (typeName : String) (items : List Operand) :
    columnarMethodBody env ir typeName (items.map .ref) = columnarMethodBody env ir typeName items := by
  have hsees : ∀ emit ∈ ir.columns.map (buildColumnEmit env), emit.SeesThrough := by
    intro emit hemit
    obtain ⟨c, -, rfl⟩ := List.mem_map.mp hemit
    exact buildColumnEmit_seesThrough env c
  simp only [columnarMethodBody, columnarParts_refs hsees, List.isEmpty_map, List.length_map]

theorem borrowedItems_eq (rows : List Value) : borrowedItems rows = (ownedItems rows).map .ref := (List.map_map).symm

theorem generateImpl_direct (env : Env) (ir : StructIR) (typeName : String) (rows : List Value) :
    (generateImpl env ir typeName).columnarToDataframe rows = (generateImpl env ir typeName).columnarFromRefs rows := by
  show columnarMethodBody env ir typeName (ownedItems rows) = columnarMethodBody env ir typeName (borrowedItems rows)
  rw [borrowedItems_eq, columnarMethodBody_refs]

end

end DfDerive
