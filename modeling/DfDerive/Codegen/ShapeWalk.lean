/-
  DfDerive.Codegen.ShapeWalk — the walkers of `encoder/shape_walk.rs`.

  `ShapeScan` is the pass that pushes offsets and validity of every list layer and runs a
  leaf body on every innermost list, `ShapePrecount` the pass before it that sizes the
  buffers; both are generated by recursion on the layers. `shapeAssembleListStack` turns
  the filled buffers into a list series, innermost layer first. The layers' buffers are a
  `Bufs` over the leaf storage: layer `cur` first, the layers below it next.
-/

import DfDerive.Lib.Scan
import DfDerive.Codegen.WrapperAccess

namespace DfDerive

open Lib

/-! ## Projection at an inter-layer transition -/

structure LayerProjection where
  layer : Nat
  /-- The tuple field read, `.0`, `.1`, ... -/
  path : Nat
  /-- Transparent wrappers between the parent `Vec` item and the tuple itself. -/
  parentAccess : AccessChain
  /-- Smart pointers wrapped around the projected element before its own layers. -/
  smartPtrDepth : Nat
  deriving DecidableEq, Repr

/-- `(*..(*tuple))`, one dereference for each smart pointer. -/
def derefSmartPtrs (n : Nat) (place : Run Operand) : Run Operand := (fun out : Run Operand => do (← out).deref)^[n] place

/-- `&(*..((*tuple_ref).i))` -/
def projectFrom (path smartPtrDepth : Nat) (tupleRef : Operand) : Run Operand := do
  let projected ← derefSmartPtrs smartPtrDepth (do (← tupleRef.deref).tupleIndex path)
  .ok (.ref projected)

def projectionBaseToRef (item : Operand) (parentAccess : AccessChain) : Run Operand :=
  if parentAccess.isEmpty then .ok item
  else if 0 < parentAccess.optionLayers then accessChainToOptionRef (.ok item) parentAccess
  else (accessChainToRef (.ok item) parentAccess).expr

def projectedLayerBind (item : Operand) (p : LayerProjection) : Run Operand := do
  let tupleRef ← projectionBaseToRef item p.parentAccess
  if p.parentAccess.optionLayers = 0 then projectFrom p.path p.smartPtrDepth tupleRef
  else tupleRef.map (projectFrom p.path p.smartPtrDepth)

/-- What the loop over the items of layer `cur` binds for layer `cur + 1`. -/
def innerBind (projection : Option LayerProjection) (cur : Nat) (item : Operand) : Run Operand :=
  match projection with
  | some p => if cur + 1 = p.layer then projectedLayerBind item p else .ok item
  | none => .ok item

/-! ## Scan -/

/-- `for x in vec.iter() { push }` -/
def forEach {σ : Type} (push : σ → Operand → Run σ) (s : σ) (vec : Operand) : Run σ := do
  (← vec.vecIter).foldlM push s

/-- `validity.push(bit)`; the bitmap is declared for nullable layers only. -/
def pushValidity (b : ListBuf) (bit : Bool) : Run ListBuf :=
  match b.validity with
  | some bits => .ok { b with validity := some (bits ++ [bit]) }
  | none => .error .illTyped

structure ShapeScan (σ : Type) where
  leafBody : σ → Operand → Run σ
  leafOffsetsPostPush : σ → Nat
  projection : Option LayerProjection

namespace ShapeScan

variable {σ : Type}

def buildIter (s : ShapeScan σ) (cur : Nat) : (inner : List VecLayerSpec) →
    (Bufs σ inner → Operand → Run (Bufs σ inner)) → Bufs σ inner → Operand → Run (Bufs σ inner)
  | [], _, st, vec => s.leafBody st vec
  | _ :: _, layerBody, st, vec => do
    (← vec.vecIter).foldlM (fun st item => do layerBody st (← innerBind s.projection cur item)) st

def buildLayer (s : ShapeScan σ) : (layers : List VecLayerSpec) → (cur : Nat) → Bufs σ layers → Operand →
    Run (Bufs σ layers)
  | [], _, st, _ => .ok st
  | layer :: inner, cur, (b, st), bind => do
    let layerAccess := accessChainToRef (.ok bind) layer.access
    let (b, st) ← if layerAccess.hasOption then do
        match ← (← layerAccess.expr).matchOption with
        | some vec =>
          let b ← pushValidity b true
          let st ← s.buildIter cur inner (s.buildLayer inner (cur + 1)) st vec
          .ok (b, st)
        | none =>
          let b ← pushValidity b false
          .ok (b, st)
      else do
        let st ← s.buildIter cur inner (s.buildLayer inner (cur + 1)) st (← layerAccess.expr)
        .ok (b, st)
    let offset ← listOffsetI64Expr (Bufs.count s.leafOffsetsPostPush inner st)
    .ok ({ b with offsets := b.offsets ++ [offset] }, st)

/-- `for it in items { .. }` -/
def build (s : ShapeScan σ) (shape : VecLayers) (access : Operand → Run Operand) (items : List Operand)
    (st : Bufs σ shape.layers.toList) : Run (Bufs σ shape.layers.toList) :=
  items.foldlM (fun st it => do s.buildLayer shape.layers.toList 0 st (.ref (← access it))) st

end ShapeScan

/-! ## Precount -/

namespace ShapePrecount

/-- The counters: one for each layer below the outermost, then the leaf total. -/
def buildIter (projection : Option LayerProjection) (cur : Nat) : (inner : List VecLayerSpec) →
    (Counts inner → Operand → Run (Counts inner)) → Nat × Counts inner → Operand → Run (Nat × Counts inner)
  | [], _, (total, c), vec => do .ok (total + (← vec.vecLen), c)
  | _ :: _, layerBody, st, vec => do
    (← vec.vecIter).foldlM (fun (counter, c) item => do
      let c ← layerBody c (← innerBind projection cur item)
      .ok (counter + 1, c)) st

def buildLayer (projection : Option LayerProjection) : (layers : List VecLayerSpec) → (cur : Nat) → Counts layers →
    Operand → Run (Counts layers)
  | [], _, c, _ => .ok c
  | layer :: inner, cur, c, bind => do
    let layerAccess := accessChainToRef (.ok bind) layer.access
    if layerAccess.hasOption then
      match ← (← layerAccess.expr).matchOption with
      | some vec => buildIter projection cur inner (buildLayer projection inner (cur + 1)) c vec
      | none => .ok c
    else buildIter projection cur inner (buildLayer projection inner (cur + 1)) c (← layerAccess.expr)

def build (projection : Option LayerProjection) (shape : VecLayers) (access : Operand → Run Operand)
    (items : List Operand) : Run (Counts shape.layers.toList) :=
  items.foldlM (fun c it => do buildLayer projection shape.layers.toList 0 c (.ref (← access it)))
    (Counts.zero shape.layers.toList)

end ShapePrecount

/-! ## Declarations and list assembly -/

/-- `shape_offsets_decls` and `shape_validity_decls`: the offsets start with 0, validity is
    declared for the layers whose cached count asks for it. -/
def shapeDecls {σ : Type} (shape : VecLayers) (leaf : σ) : Bufs σ shape.layers.toList :=
  Bufs.init VecLayerSpec.hasOuterValidity leaf shape.layers.toList

/-- The layers' buffers, outermost first. -/
def layerBufs {σ : Type} : (layers : List VecLayerSpec) → Bufs σ layers → List ListBuf
  | [], _ => []
  | _ :: inner, (b, st) => b :: layerBufs inner st

/-- `freeze_validity_bitmap`; there is a bitmap to freeze where one is declared. -/
def freezeValidityBitmap (b : ListBuf) : Run (List Bool) :=
  match b.validity with
  | some bits => .ok bits
  | none => .error .illTyped

/-- `shape_layer_wraps_move` and `shape_layer_wraps_clone`: the cached count decides again
    which layers have a bitmap. -/
def shapeLayerWraps : List VecLayerSpec → List ListBuf → Run (List ListBuf)
  | layer :: layers, b :: bufs => do
    let validityBm ← if layer.hasOuterValidity then do .ok (some (← freezeValidityBitmap b)) else .ok none
    .ok ({ b with validity := validityBm } :: (← shapeLayerWraps layers bufs))
  | _, _ => .ok []

def wrapListLayers (dtype : DataType) : Nat → DataType
  | 0 => dtype
  | n + 1 => .list (wrapListLayers dtype n)

/-- `ListAssembly::new(list_arr, inner_logical_dtype).into_series()` -/
def assembleHelper (listArr : ArrowArray) (innerLogicalDtype : DataType) : Run Series :=
  let logicalDtype := DataType.list innerLogicalDtype
  let expectedArrowDtype := logicalDtype.physicalArrow
  if listArr.dtype ≠ expectedArrowDtype then Run.derive (.listAssemblyDtype listArr.dtype logicalDtype)
  else Series.fromChunksAndDtypeUnchecked listArr logicalDtype

/-- One step of the stack: freeze the layer's offsets and wrap the payload. -/
def wrapLayer (freeze : List Nat → Run (List Nat)) (b : ListBuf) (prev : ArrowArray) : Run ArrowArray := do
  let offsetsBuf ← freeze b.offsets
  largeListNew prev.dtype offsetsBuf prev b.validity

/-- `shape_assemble_list_stack`, from the innermost layer outwards. -/
def shapeAssembleListStack (freeze : List Nat → Run (List Nat)) (seed : ArrowArray) (layers : List ListBuf)
    (leafLogicalDtype : DataType) : Run Series := do
  let outer ← layers.foldrM (wrapLayer freeze) seed
  assembleHelper outer (wrapListLayers leafLogicalDtype (layers.length - 1))

/-- The offsets frozen inside the stack (`OwnPolicy::Move`). -/
abbrev freezeMove : List Nat → Run (List Nat) := offsetsTryFrom

/-- The offsets frozen before the stack (`OwnPolicy::Clone`). -/
abbrev freezeClone : List Nat → Run (List Nat) := .ok

/-- `shape_freeze_offsets_buffers` -/
def shapeFreezeOffsetsBuffers (layers : List ListBuf) : Run Unit := layers.forM fun b => do let _ ← offsetsTryFrom b.offsets

end DfDerive
