/-
  DfDerive.Codegen.Nested — nested struct and generic columns (`encoder/emit.rs`, `encoder/nested_columns.rs`).

  A nested column is collected and then converted in bulk: the scan pushes a reference to
  every present element to a flat vector and, when elements may be absent, a position for
  every slot. The flat vector is handed to the element type's `columnar_from_refs`, and each
  column of its schema is put back into the slots and below the list layers of the field. Which
  of the branches does so is decided by the lengths of the buffers.
-/

import DfDerive.Codegen.Vec
import DfDerive.Core.Dataframe
import DfDerive.Ir.Columns

namespace DfDerive

open Lib

/-- `compose_nested_name` (`nested_names.rs`) -/
def composeNestedName (policy : NestedNamePolicy) (parentName innerName : String) : String :=
  match policy with
  | .field => parentName ++ "." ++ innerName
  | .flatten => innerName
  | .prefixed name => name ++ "." ++ innerName

/-- What `build_nested_encoder` knows of its call site. -/
structure CollectThenBulk where
  impl : Impl
  name : String
  namePolicy : NestedNamePolicy

/-! ## Collecting -/

/-- The flat vector of references, kept as the values they lead to, and the positions. -/
structure NestedBufs where
  flat : List Value
  positions : List (Option Nat)

def NestedBufs.new : NestedBufs := ⟨[], []⟩

/-- `flat.push(v)` -/
def pushFlat (s : NestedBufs) (v : Operand) : Run NestedBufs := do .ok { s with flat := s.flat ++ [← v.value] }

/-- `match maybe { Some(v) => { positions.push(Some(flat.len())); flat.push(v) } None => positions.push(None) }` -/
def pushPosition (s : NestedBufs) (maybe : Operand) : Run NestedBufs := do
  match ← maybe.matchOption with
  | some v =>
    let flatIdx ← idxSizeLenExpr s.flat.length
    .ok ⟨s.flat ++ [← v.value], s.positions ++ [some flatIdx]⟩
  | none => .ok { s with positions := s.positions ++ [none] }

/-- The push of an element; a slot that may be empty has a position. -/
def nestedPush (hasInnerOption : Bool) : NestedBufs → Operand → Run NestedBufs :=
  if hasInnerOption then pushPosition else pushFlat

def ctbDepth0MatchExpr (access : Operand) (accessChain : AccessChain) (optionLayers : Nat) : Run Operand :=
  if accessChain.isSinglePlainOption then .ok (.ref access)
  else if accessChain.isOnlyOptions then collapseOptionsToRef (.ok access) optionLayers
  else (accessChainToRef (.ok (.ref access)) accessChain).expr

def ctbDepth0RefExpr (access : Operand) (accessChain : AccessChain) : Run Operand :=
  if accessChain.isEmpty then .ok (.ref access) else (accessChainToRef (.ok (.ref access)) accessChain).expr

def ctbLeafScanDepth0 (access : Operand → Run Operand) (optionLayers : Nat) (accessChain : AccessChain)
    (items : List Operand) : Run NestedBufs :=
  if optionLayers = 0 then
    items.foldlM (fun s it => do pushFlat s (← ctbDepth0RefExpr (← access it) accessChain)) .new
  else
    items.foldlM (fun s it => do pushPosition s (← ctbDepth0MatchExpr (← access it) accessChain optionLayers)) .new

def ctbLeafBody (shape : VecLayers) : NestedBufs → Operand → Run NestedBufs :=
  if shape.innerAccess.isEmpty then forEach pushFlat
  else if shape.innerAccess.isSinglePlainOption then forEach pushPosition
  else forEach fun s raw => do
    let chainRef := accessChainToRef (.ok raw) shape.innerAccess
    let resolved ← chainRef.expr
    if chainRef.hasOption then pushPosition s resolved else pushFlat s resolved

/-- The leaf offset after a push. -/
def nestedOffsetsPostPush (shape : VecLayers) (s : NestedBufs) : Nat :=
  if shape.hasInnerOption then s.positions.length else s.flat.length

/-! ## Runtime checks (`support.rs`) -/

def validateNestedFrame (df : DataFrame) (expectedHeight : Nat) (typeName : String) : Run Unit :=
  if df.height ≠ expectedHeight then Run.derive (.nestedHeight typeName df.height expectedHeight) else .ok ()

def validateNestedColumnDtype (series : Series) (columnName : String) (declaredDtype : DataType) : Run Unit :=
  if series.dtype ≠ declaredDtype then Run.derive (.nestedColumnDtype columnName series.dtype declaredDtype) else .ok ()

/-! ## Materializing -/

inductive NestedMaterializeKind where
  | leafBare
  | leafOptional
  | vec (hasInnerOption : Bool)
  deriving DecidableEq, Repr

def nestedDfDecl (impl : Impl) (flat : List Value) : Run DataFrame := do
  let df ← impl.columnarFromRefs flat
  validateNestedFrame df flat.length impl.typeName
  .ok df

def buildInnerColDirect (df : DataFrame) (colName : String) (dtype : DataType) : Run Series := do
  let innerFull ← df.column colName
  validateNestedColumnDtype innerFull colName dtype
  .ok innerFull

def buildInnerColTake (df : DataFrame) (take : List (Option Nat)) (colName : String) (dtype : DataType) : Run Series := do
  let innerFull ← df.column colName
  validateNestedColumnDtype innerFull colName dtype
  innerFull.take take

def buildInnerColEmpty (_colName : String) (dtype : DataType) : Run Series := .ok (Series.newEmpty "" dtype)

def buildInnerColAllAbsent (len : Nat) (_colName : String) (dtype : DataType) : Run Series :=
  .ok ((Series.newEmpty "" dtype).extendNull len)

/-- Wrap an inner column in the field's list layers, whose offsets are already frozen. -/
def wrapNestedColumn (layers : Option (List ListBuf)) (dtype : DataType) (innerCol : Series) : Run Series :=
  match layers with
  | none => .ok innerCol
  | some layers => shapeAssembleListStack freezeClone innerCol.chunk layers dtype

/-- One series for every entry of the element type's schema. -/
def consumeNestedColumns (ctb : CollectThenBulk) (layers : Option (List ListBuf))
    (innerCol : String → DataType → Run Series) : Run (List Series) := do
  (← ctb.impl.schema).mapM fun (colName, dtype) => do
    let prefixed := composeNestedName ctb.namePolicy ctb.name colName
    let inner ← wrapNestedColumn layers dtype (← innerCol colName dtype)
    .ok (inner.withName prefixed)

structure NestedMaterializeBranches where
  offsetsFreeze : Run Unit
  dfDecl : Run DataFrame
  consumeDirect : DataFrame → Run (List Series)
  consumeTake : DataFrame → Run (List Series)
  consumeEmpty : Run (List Series)
  consumeAllAbsent : Run (List Series)

def nestedMaterializeDispatch (kind : NestedMaterializeKind) (flat : List Value) (totalLen : Nat)
    (branches : NestedMaterializeBranches) : Run (List Series) :=
  match kind with
  | .leafBare => do branches.consumeDirect (← branches.dfDecl)
  | .leafOptional =>
    if flat.isEmpty then branches.consumeAllAbsent
    else if flat.length = totalLen then do branches.consumeDirect (← branches.dfDecl)
    else do branches.consumeTake (← branches.dfDecl)
  | .vec true =>
    if totalLen = 0 then do
      branches.offsetsFreeze
      branches.consumeEmpty
    else if flat.isEmpty then do
      branches.offsetsFreeze
      branches.consumeAllAbsent
    else if flat.length = totalLen then do
      let df ← branches.dfDecl
      branches.offsetsFreeze
      branches.consumeDirect df
    else do
      let df ← branches.dfDecl
      branches.offsetsFreeze
      branches.consumeTake df
  | .vec false =>
    if flat.isEmpty then do
      branches.offsetsFreeze
      branches.consumeEmpty
    else do
      let df ← branches.dfDecl
      branches.offsetsFreeze
      branches.consumeDirect df

/-- `materialize_nested_columns`; `positions` and `layers` are `none` where the shape has none. -/
def materializeNestedColumns (ctb : CollectThenBulk) (flat : List Value) (positions : Option (List (Option Nat)))
    (totalLen : Nat) (layers : Option (List ListBuf)) : Run (List Series) :=
  let kind := match layers with
    | none => if positions.isSome then .leafOptional else .leafBare
    | some _ => .vec positions.isSome
  nestedMaterializeDispatch kind flat totalLen
    { offsetsFreeze := shapeFreezeOffsetsBuffers (layers.getD [])
      dfDecl := nestedDfDecl ctb.impl flat
      consumeDirect := fun df => consumeNestedColumns ctb layers (buildInnerColDirect df)
      consumeTake := fun df => consumeNestedColumns ctb layers (buildInnerColTake df (positions.getD []))
      consumeEmpty := consumeNestedColumns ctb layers buildInnerColEmpty
      consumeAllAbsent := consumeNestedColumns ctb layers (buildInnerColAllAbsent totalLen) }

/-! ## Emission -/

/-- The passes over a shape with `Vec` layers, for the leaf body and projection of the caller. -/
def nestedVecEmit (ctb : CollectThenBulk) (leafBody : NestedBufs → Operand → Run NestedBufs)
    (projection : Option LayerProjection) (shape : VecLayers) (access : Operand → Run Operand) (items : List Operand) :
    Run (List Series) := do
  let counts ← ShapePrecount.build projection shape access items
  let st ← ShapeScan.build ⟨leafBody, nestedOffsetsPostPush shape, projection⟩ shape access items (shapeDecls shape .new)
  let leaf := Bufs.leaf _ st
  materializeNestedColumns ctb leaf.flat (if shape.hasInnerOption then some leaf.positions else none)
    (Counts.total _ counts) (some (layerBufs _ st))

/-- `ctb_emit` -/
def vecEmitCtb (ctb : CollectThenBulk) (wrapper : WrapperShape) (access : Operand → Run Operand) (items : List Operand) :
    Run (List Series) :=
  match wrapper with
  | .leaf .bare => do
    let s ← ctbLeafScanDepth0 access 0 .empty items
    materializeNestedColumns ctb s.flat none items.length none
  | .leaf (.optional optionLayers accessChain) => do
    let s ← ctbLeafScanDepth0 access optionLayers accessChain items
    materializeNestedColumns ctb s.flat (some s.positions) items.length none
  | .vec shape => nestedVecEmit ctb (ctbLeafBody shape) none shape access items

/-- `build_nested_encoder` -/
def buildNestedEncoder (wrapper : WrapperShape) (ctb : CollectThenBulk) (access : Operand → Run Operand)
    (items : List Operand) : Run (List Series) :=
  vecEmitCtb ctb wrapper access items

end DfDerive
