/-
  DfDerive.Codegen.ScopedWalks — the walks by the names they bind and read (`encoder/shape_walk.rs`).

  A `TokenStream` keeps of a quotation its binders, its blocks and its reads, in order;
  types, paths, methods and literals bind nothing and are left out. A closure, a match arm
  and the body of a `for` are inner scopes that start with their binder. The emitters are
  those of the source, for access chains (`encoder/wrapper_access.rs`), for the precount and
  the scan over the layers, and for the assembly of the list.
-/

import DfDerive.Codegen.Idents
import DfDerive.Codegen.ShapeWalk

namespace DfDerive.Scoped

open Lib Idents

abbrev TokenStream : Type := Code Ident

/-! ## Quotations -/

/-- Reads of the first binders of the names. -/
def use (names : List Ident) : TokenStream := names.foldr (fun i rest => .read (.own i) rest) .done

def read (b : Binder Ident) : TokenStream := .read b .done

/-- `let i = init;` -/
def letIn (i : Ident) (init : TokenStream) : TokenStream := init ++ .bind (.own i) .done

/-- `{ body }` -/
def block (body : TokenStream) : TokenStream := .scope body .done

/-- `|b| body`, and a match arm that binds `b`. -/
def closure (b : Binder Ident) (body : TokenStream) : TokenStream := .scope (.bind b body) .done

/-- `for i in iter { body }` -/
def forIn (i : Ident) (iter body : TokenStream) : TokenStream := iter ++ closure (.own i) body

/-- `match scrutinee { Some(b) => some, None => none }` -/
def matchOption (scrutinee : TokenStream) (b : Binder Ident) (some none : TokenStream) : TokenStream :=
  scrutinee ++ closure b some ++ block none

/-! ## Access chains (`encoder/wrapper_access.rs`) -/

def idxSizeLenExpr (flat : Ident) : TokenStream := use [flat] ++ block (use [flat])

def listOffsetI64Expr (offset : TokenStream) : TokenStream := offset ++ block offset

/-- `out.and_then(|o| o.as_ref())` -/
def andThenAsRef (out : TokenStream) : TokenStream := out ++ closure (.own collapseOptionParam) (use [collapseOptionParam])

def collapseOptionsToRef (base : TokenStream) (n : Nat) : TokenStream := if n = 0 then base else andThenAsRef^[n - 1] base

structure ChainRef where
  expr : TokenStream
  hasOption : Bool

/-- Dereferences read what they are applied to. -/
def derefRefExpr (baseRef : TokenStream) (_smartPtrs : Nat) : TokenStream := baseRef

def applyPendingSmartPtrs (expr : TokenStream) (hasOption : Bool) (smartPtrs : Nat) : TokenStream :=
  if smartPtrs = 0 then expr
  else if hasOption then
    expr ++ closure (.own collapseOptionParam) (derefRefExpr (use [collapseOptionParam]) smartPtrs)
  else derefRefExpr expr smartPtrs

/-- The loop state of `access_chain_to_ref`. -/
structure ChainState where
  expr : TokenStream
  hasOption : Bool
  pendingSmartPtrs : Nat

def ChainState.step (s : ChainState) : AccessStep → ChainState
  | .smartPtr => { s with pendingSmartPtrs := s.pendingSmartPtrs + 1 }
  | .option =>
    let expr := applyPendingSmartPtrs s.expr s.hasOption s.pendingSmartPtrs
    if s.hasOption then ⟨andThenAsRef expr, true, 0⟩ else ⟨expr, true, 0⟩

def ChainState.finish (s : ChainState) : ChainRef :=
  ⟨applyPendingSmartPtrs s.expr s.hasOption s.pendingSmartPtrs, s.hasOption⟩

def accessChainToRef (base : TokenStream) (chain : AccessChain) : ChainRef :=
  if chain.isEmpty then ⟨base, false⟩
  else if chain.isOnlyOptions then
    let optionLayers := chain.optionLayers
    ⟨if optionLayers = 1 then base else collapseOptionsToRef base optionLayers, decide (0 < optionLayers)⟩
  else (chain.steps.foldl ChainState.step ⟨base, false, 0⟩).finish

def accessChainToOptionRef (base : TokenStream) (chain : AccessChain) : TokenStream :=
  if chain.isOnlyOptions then collapseOptionsToRef base chain.optionLayers else (accessChainToRef base chain).expr

/-! ## Projection at an inter-layer transition -/

/-- `&(*..((*tuple_ref).i))` -/
def projectFrom (tupleRef : TokenStream) : TokenStream := tupleRef

def projectionBaseToRef (itemBind : Ident) (parentAccess : AccessChain) : TokenStream :=
  if parentAccess.isEmpty then use [itemBind]
  else if 0 < parentAccess.optionLayers then accessChainToOptionRef (use [itemBind]) parentAccess
  else (accessChainToRef (use [itemBind]) parentAccess).expr

def projectedLayerBind (itemBind : Ident) (projection : LayerProjection) (bindPrefix : OuterSomePrefix) (cur : Nat) :
    TokenStream :=
  let tupleRef := projectionBaseToRef itemBind projection.parentAccess
  if projection.parentAccess.optionLayers = 0 then projectFrom tupleRef
  else
    let param := proj bindPrefix cur
    tupleRef ++ closure (.own param) (projectFrom (use [param]))

/-- The loop over the items of layer `cur`, around the code of the layer below. -/
def itemLoop (projection : Option LayerProjection) (outerSomePrefix : OuterSomePrefix) (cur : Nat) (innerBind : Ident)
    (vecBind body : TokenStream) : TokenStream :=
  match projection.filter (fun p => cur + 1 = p.layer) with
  | none => forIn innerBind vecBind body
  | some projection =>
    let itemBind := projItem outerSomePrefix cur
    forIn itemBind vecBind (letIn innerBind (projectedLayerBind itemBind projection outerSomePrefix cur) ++ body)

/-! ## Scan -/

structure ShapeScan where
  shape : VecLayers
  access : TokenStream
  layers : Nat → LayerIdents
  outerSomePrefix : OuterSomePrefix
  leafBody : TokenStream → TokenStream
  leafOffsetsPostPush : TokenStream
  projection : Option LayerProjection

namespace ShapeScan

def buildIter (s : ShapeScan) (cur : Nat) (inner : List VecLayerSpec) (innerLayerBody vecBind : TokenStream) : TokenStream :=
  if inner.isEmpty then s.leafBody vecBind
  else itemLoop s.projection s.outerSomePrefix cur (s.layers (cur + 1)).bind vecBind innerLayerBody

def buildLayer (s : ShapeScan) : (layers : List VecLayerSpec) → (cur : Nat) → (bind : TokenStream) → TokenStream
  | [], _, _ => .done
  | spec :: inner, cur, bind =>
    let layer := s.layers cur
    let buildIter := s.buildIter cur inner (s.buildLayer inner (cur + 1) (use [(s.layers (cur + 1)).bind]))
    let offsetsPostPush := if inner.isEmpty then s.leafOffsetsPostPush else use [(s.layers (cur + 1)).offsets]
    let layerAccess := accessChainToRef bind spec.access
    let innerIter :=
      if layerAccess.hasOption then
        let innerVecBind := outerSome s.outerSomePrefix cur
        matchOption layerAccess.expr (.own innerVecBind) (use [layer.validityMb] ++ buildIter (use [innerVecBind]))
          (use [layer.validityMb])
      else buildIter layerAccess.expr
    innerIter ++ letIn listOffset (listOffsetI64Expr offsetsPostPush) ++ use [layer.offsets, listOffset]

def build (s : ShapeScan) : TokenStream :=
  forIn populatorIter (use [plain .items]) (s.buildLayer s.shape.layers.toList 0 s.access)

end ShapeScan

/-! ## Precount -/

structure ShapePrecount where
  shape : VecLayers
  access : TokenStream
  layers : Nat → LayerIdents
  outerSomePrefix : OuterSomePrefix
  totalCounter : Ident
  layerCounters : Nat → Ident
  projection : Option LayerProjection

/-- The counters of the layers below the outermost. -/
def counters (shape : VecLayers) (layerCounters : Nat → Ident) : List Ident :=
  (List.range (shape.depth - 1)).map layerCounters

namespace ShapePrecount

def buildIter (s : ShapePrecount) (cur : Nat) (inner : List VecLayerSpec) (innerLayerBody vecBind : TokenStream) :
    TokenStream :=
  if inner.isEmpty then use [s.totalCounter] ++ vecBind
  else
    itemLoop s.projection s.outerSomePrefix cur (s.layers (cur + 1)).bind vecBind
      (innerLayerBody ++ use [s.layerCounters cur])

def buildLayer (s : ShapePrecount) : (layers : List VecLayerSpec) → (cur : Nat) → (bind : TokenStream) → TokenStream
  | [], _, _ => .done
  | spec :: inner, cur, bind =>
    let buildIter := s.buildIter cur inner (s.buildLayer inner (cur + 1) (use [(s.layers (cur + 1)).bind]))
    let layerAccess := accessChainToRef bind spec.access
    if layerAccess.hasOption then
      let innerVecBind := outerSome s.outerSomePrefix cur
      layerAccess.expr ++ closure (.own innerVecBind) (buildIter (use [innerVecBind]))
    else buildIter layerAccess.expr

def build (s : ShapePrecount) : TokenStream :=
  letIn s.totalCounter .done ++ .seq ((counters s.shape s.layerCounters).map fun c => letIn c .done) ++
    forIn populatorIter (use [plain .items]) (s.buildLayer s.shape.layers.toList 0 s.access)

end ShapePrecount

/-! ## Emitter -/

structure ShapeEmitter where
  shape : VecLayers
  access : TokenStream
  layers : Nat → LayerIdents
  outerSomePrefix : OuterSomePrefix
  precountOuterSomePrefix : OuterSomePrefix
  totalCounter : Ident
  layerCounters : Nat → Ident
  projection : Option LayerProjection

namespace ShapeEmitter

/-- `ShapeEmitter::vec`, with the identifiers of `vec_emit_pep`. -/
def vec (shape : VecLayers) (access : TokenStream) : ShapeEmitter where
  shape
  access
  layers := .new .vec
  outerSomePrefix := .vec
  precountOuterSomePrefix := .vec
  totalCounter := totalLeaves
  layerCounters := vecLayerTotal
  projection := none

/-- `ShapeEmitter::nested`, with the identifiers of `vec_emit_ctb`. -/
def nested (idx : Nat) (shape : VecLayers) (access : TokenStream) : ShapeEmitter where
  shape
  access
  layers := .new (.nested idx)
  outerSomePrefix := .nested
  precountOuterSomePrefix := .nestedPre
  totalCounter := nestedTotal idx
  layerCounters := nestedLayerTotal
  projection := none

/-- `ShapeEmitter::tuple`, with `projected_layer_idents` and `projected_layer_counters`. -/
def tuple (idx : Nat) (shape : VecLayers) (access : TokenStream) (totalCounter : Ident) (projection : LayerProjection) :
    ShapeEmitter where
  shape
  access
  layers := .new (.tuple idx)
  outerSomePrefix := .tuple
  precountOuterSomePrefix := .tuplePre
  totalCounter
  layerCounters := tupleLayerTotal idx
  projection := some projection

def precount (e : ShapeEmitter) : TokenStream :=
  ShapePrecount.build ⟨e.shape, e.access, e.layers, e.precountOuterSomePrefix, e.totalCounter, e.layerCounters, e.projection⟩

def scan (e : ShapeEmitter) (leafBody : TokenStream → TokenStream) (leafOffsetsPostPush : TokenStream) : TokenStream :=
  ShapeScan.build ⟨e.shape, e.access, e.layers, e.outerSomePrefix, leafBody, leafOffsetsPostPush, e.projection⟩

/-- The count a buffer of layer `i` is reserved for. -/
def capacity (e : ShapeEmitter) (i : Nat) : TokenStream :=
  if i = 0 then use [plain .items] else use [e.layerCounters (i - 1)]

def offsetsDecls (e : ShapeEmitter) : TokenStream :=
  .seq ((List.range e.shape.depth).map fun i =>
    letIn (e.layers i).offsets (e.capacity i) ++ use [(e.layers i).offsets])

def validityDecls (e : ShapeEmitter) : TokenStream :=
  .seq (e.shape.layers.toList.mapIdx fun i spec =>
    if spec.hasOuterValidity then letIn (e.layers i).validityMb (e.capacity i) else .done)

end ShapeEmitter

/-! ## List assembly -/

def freezeOffsetsBuf (buf offsets : Ident) : TokenStream := letIn buf (use [offsets])

def freezeValidityBitmap (bm mb : Ident) : TokenStream := letIn bm (use [mb])

def shapeFreezeValidityBitmaps (shape : VecLayers) (layers : Nat → LayerIdents) : TokenStream :=
  .seq (shape.layers.toList.mapIdx fun i spec =>
    if spec.hasOuterValidity then freezeValidityBitmap (layers i).validityBm (layers i).validityMb else .done)

def shapeFreezeOffsetsBuffers (shape : VecLayers) (layers : Nat → LayerIdents) : TokenStream :=
  .seq ((List.range shape.depth).map fun i => freezeOffsetsBuf (layers i).offsetsBuf (layers i).offsets)

/-- Both `OwnPolicy`s read the offsets buffer. -/
structure LayerWrap where
  offsetsBuf : Ident
  validityBm : Option Ident
  freezeDecl : TokenStream

def shapeLayerWrapsMove (shape : VecLayers) (layers : Nat → LayerIdents) : List LayerWrap :=
  shape.layers.toList.mapIdx fun cur spec =>
    let layer := layers cur
    let freezeOffsets := freezeOffsetsBuf layer.offsetsBuf layer.offsets
    if spec.hasOuterValidity then
      ⟨layer.offsetsBuf, some layer.validityBm, freezeOffsets ++ freezeValidityBitmap layer.validityBm layer.validityMb⟩
    else ⟨layer.offsetsBuf, none, freezeOffsets⟩

def shapeLayerWrapsClone (shape : VecLayers) (layers : Nat → LayerIdents) : List LayerWrap :=
  shape.layers.toList.mapIdx fun cur spec =>
    ⟨(layers cur).offsetsBuf, if spec.hasOuterValidity then some (layers cur).validityBm else none, .done⟩

/-- The blocks of `shape_assemble_list_stack`, from the innermost layer outwards. -/
def listBlocks (seed seedDtype : TokenStream) (arrIdForLayer : Nat → Ident) : List LayerWrap → Nat → TokenStream
  | [], _ => .done
  | layer :: inner, cur =>
    let prevDtype := if inner.isEmpty then seedDtype else use [arrIdForLayer (cur + 1)]
    let prevPayload := if inner.isEmpty then seed else use [arrIdForLayer (cur + 1)]
    listBlocks seed seedDtype arrIdForLayer inner (cur + 1) ++ layer.freezeDecl ++
      letIn (arrIdForLayer cur) (prevDtype ++ use [layer.offsetsBuf] ++ prevPayload ++ use layer.validityBm.toList)

def shapeAssembleListStack (seed seedDtype : TokenStream) (layers : List LayerWrap) (leafLogicalDtype : TokenStream)
    (arrIdForLayer : Nat → Ident) : TokenStream :=
  listBlocks seed seedDtype arrIdForLayer layers 0 ++ use [helper .assembleHelper, arrIdForLayer 0] ++ leafLogicalDtype

end DfDerive.Scoped
