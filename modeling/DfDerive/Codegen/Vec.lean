/-
  DfDerive.Codegen.Vec — primitive leaves below `Vec` layers (`encoder/vec.rs`, `encoder/emit.rs`).

  A leaf is stored by one of four kinds of buffer; with an `Option` above the leaf the
  buffer has a validity bitmap, pre-filled from the precount and written by index. The
  emission runs the precount, declares the storage, scans, and assembles the leaf array
  and the list stack. Bare `bool` at depth 1 has a body of its own.
-/

import DfDerive.Codegen.LeafValue
import DfDerive.Codegen.ShapeWalk

namespace DfDerive

open Lib

/-! ## Leaf storage -/

/-- The locals of a leaf's storage; each kind of leaf declares some of them. -/
structure VecLeafBufs where
  flat : List Prim
  viewBuf : List Prim
  values : List Bool
  validity : List Bool
  leafIdx : Nat
  scratch : String
  deriving DecidableEq, Repr

/-- `mb_decl_filled` -/
def mbDeclFilled (capacity : Nat) (value : Bool) : List Bool := List.replicate capacity value

/-- `<native as Default>::default()` -/
def nativeDefault : ArrowDataType → Prim
  | .float32 | .float64 => .float 0
  | _ => .int 0

inductive VecLeafSpec where
  | numeric (native : ArrowDataType) (valueExpr : Operand → Run Prim)
  /-- The value expression may use the scratch buffer, which it returns. -/
  | stringLike (valueExpr : String → Operand → Run (String × String))
  | binaryLike (valueExpr : Operand → Run (List UInt8))
  | bool

/-- Storage declarations, per-element push and leaf array of a kind of leaf. -/
structure LeafPieces where
  storage : Nat → VecLeafBufs
  push : VecLeafBufs → Operand → Run VecLeafBufs
  leafArr : VecLeafBufs → Run ArrowArray

def emptyBufs : VecLeafBufs := ⟨[], [], [], [], 0, ""⟩

/-- `leaf_offsets_post_push_tokens` -/
def leafOffsetsPostPush (spec : VecLeafSpec) (s : VecLeafBufs) : Nat :=
  match spec with
  | .numeric .. => s.flat.length
  | .stringLike .. | .binaryLike .. => s.viewBuf.length
  | .bool => s.leafIdx

/-- `*v` as a `bool` -/
def boolOf (v : Operand) : Run Bool := do
  match ← v.value with
  | .scalar (.bool b) => .ok b
  | _ => .error .illTyped

def boolBareLeafPieces : LeafPieces where
  storage total := { emptyBufs with values := mbDeclFilled total false }
  push s v := do
    let b ← boolOf (← v.deref)
    let values ← if b then bitmapSet s.values s.leafIdx true else .ok s.values
    .ok { s with values, leafIdx := s.leafIdx + 1 }
  leafArr s := flatArrayNew .boolean (s.values.map .bool) none

def boolInnerOptionLeafPieces : LeafPieces where
  storage total := { emptyBufs with values := mbDeclFilled total false, validity := mbDeclFilled total true }
  push s v := do
    match ← v.matchOption with
    | some v =>
      let b ← boolOf v
      let values ← if b then bitmapSet s.values s.leafIdx true else .ok s.values
      .ok { s with values, leafIdx := s.leafIdx + 1 }
    | none =>
      let validity ← bitmapSet s.validity s.leafIdx false
      .ok { s with validity, leafIdx := s.leafIdx + 1 }
  leafArr s := flatArrayNew .boolean (s.values.map .bool) (bitmapIntoOption s.validity)

def numericLeafPieces (native : ArrowDataType) (valueExpr : Operand → Run Prim) (hasInnerOption : Bool) : LeafPieces :=
  if hasInnerOption then
    { storage := fun total => { emptyBufs with validity := mbDeclFilled total true }
      push := fun s v => do
        match ← v.matchOption with
        | some v => .ok { s with flat := s.flat ++ [← valueExpr v] }
        | none =>
          let flat := s.flat ++ [nativeDefault native]
          let validity ← bitmapSet s.validity (flat.length - 1) false
          .ok { s with flat, validity }
      leafArr := fun s => flatArrayNew native s.flat (bitmapIntoOption s.validity) }
  else
    { storage := fun _ => emptyBufs
      push := fun s v => do .ok { s with flat := s.flat ++ [← valueExpr v] }
      leafArr := fun s => .ok (.flat native s.flat none) }

/-- The view buffers of `string_like_leaf_pieces` and `binary_like_leaf_pieces`, with the
    value pushed for an absent leaf. -/
def viewLeafPieces (dtype : ArrowDataType) (empty : Prim) (pushValue : VecLeafBufs → Operand → Run (Prim × String))
    (hasInnerOption : Bool) : LeafPieces :=
  if hasInnerOption then
    { storage := fun total => { emptyBufs with validity := mbDeclFilled total true }
      push := fun s v => do
        match ← v.matchOption with
        | some v =>
          let (value, scratch) ← pushValue s v
          .ok { s with viewBuf := s.viewBuf ++ [value], scratch, leafIdx := s.leafIdx + 1 }
        | none =>
          let validity ← bitmapSet s.validity s.leafIdx false
          .ok { s with viewBuf := s.viewBuf ++ [empty], validity, leafIdx := s.leafIdx + 1 }
      leafArr := fun s => flatArrayNew dtype s.viewBuf (bitmapIntoOption s.validity) }
  else
    { storage := fun _ => emptyBufs
      push := fun s v => do
        let (value, scratch) ← pushValue s v
        .ok { s with viewBuf := s.viewBuf ++ [value], scratch }
      leafArr := fun s => .ok (.flat dtype s.viewBuf none) }

def stringLikeLeafPieces (valueExpr : String → Operand → Run (String × String)) (hasInnerOption : Bool) : LeafPieces :=
  viewLeafPieces .utf8View (.str "") (fun s v => do
    let (text, scratch) ← valueExpr s.scratch v
    .ok (.str text, scratch)) hasInnerOption

def binaryLikeLeafPieces (valueExpr : Operand → Run (List UInt8)) (hasInnerOption : Bool) : LeafPieces :=
  viewLeafPieces .binaryView (.bytes []) (fun s v => do .ok (.bytes (← valueExpr v), s.scratch)) hasInnerOption

def buildVecLeafPieces (spec : VecLeafSpec) (hasInnerOption : Bool) : LeafPieces :=
  match spec with
  | .numeric native valueExpr => numericLeafPieces native valueExpr hasInnerOption
  | .stringLike valueExpr => stringLikeLeafPieces valueExpr hasInnerOption
  | .binaryLike valueExpr => binaryLikeLeafPieces valueExpr hasInnerOption
  | .bool => if hasInnerOption then boolInnerOptionLeafPieces else boolBareLeafPieces

/-! ## Leaf plans -/

structure VecLeafPlan where
  spec : VecLeafSpec
  leafDtype : DataType

def mappedNumericPlan (tr : Traits) (leaf : ScalarTransform) (native : ArrowDataType) : VecLeafPlan :=
  ⟨.numeric native fun v => mapPrimitiveExpr tr v .ref leaf, leaf.dtype⟩

/-- A text read without the scratch buffer. -/
def plainText (read : Value → Run String) : String → Operand → Run (String × String) :=
  fun scratch v => do .ok (← read (← v.value), scratch)

def vecLeafPlan (tr : Traits) (leaf : PrimitiveLeaf) : VecLeafPlan :=
  match leaf with
  | .numeric kind =>
    ⟨.numeric (numericInfoFor kind).native fun v => do numericStoredValue kind (← (← v.deref).value), leaf.dtype⟩
  | .string => ⟨.stringLike (plainText stringAsStr), leaf.dtype⟩
  | .binary => ⟨.binaryLike fun v => do asRefBytes (← v.value), leaf.dtype⟩
  | .bool => ⟨.bool, leaf.dtype⟩
  | .dateTime unit => mappedNumericPlan tr (.dateTime unit) .int64
  | .naiveDateTime unit => mappedNumericPlan tr (.naiveDateTime unit) .int64
  | .naiveTime => mappedNumericPlan tr .naiveTime .int64
  | .duration unit source => mappedNumericPlan tr (.duration unit source) .int64
  | .naiveDate => mappedNumericPlan tr .naiveDate .int32
  | .decimal precision scale => mappedNumericPlan tr (.decimal precision scale) .int128
  | .asString =>
    ⟨.stringLike fun scratch v => do
      let scratch ← displayInto tr scratch (← v.value)
      .ok (scratch, scratch), leaf.dtype⟩
  | .asStr base => ⟨.stringLike (plainText (asRefStr tr base)), leaf.dtype⟩

/-! ## Emission -/

/-- `PerElementPush` -/
structure PerElementPush where
  perElemPush : VecLeafBufs → Operand → Run VecLeafBufs
  storageDecls : Nat → VecLeafBufs
  leafArrExpr : VecLeafBufs → Run ArrowArray
  leafOffsetsPostPush : VecLeafBufs → Nat
  leafLogicalDtype : DataType

def lowerToPep (spec : VecLeafSpec) (shape : VecLayers) (leafDtype : DataType) : PerElementPush :=
  let pieces := buildVecLeafPieces spec shape.hasInnerOption
  { perElemPush := pieces.push
    storageDecls := pieces.storage
    leafArrExpr := pieces.leafArr
    leafOffsetsPostPush := leafOffsetsPostPush spec
    leafLogicalDtype := leafDtype }

def pepForPrimitiveLeaf (tr : Traits) (leaf : PrimitiveLeaf) (shape : VecLayers) : PerElementPush :=
  let plan := vecLeafPlan tr leaf
  lowerToPep plan.spec shape plan.leafDtype

/-- What `pep_leaf_body` binds for a raw item: the item itself, or its access chain. -/
def pepLeafExpr (shape : VecLayers) (raw : Operand) : Run Operand :=
  if shape.innerAccess.isEmpty || shape.innerAccess.isSinglePlainOption then .ok raw
  else (accessChainToRef (.ok raw) shape.innerAccess).expr

/-- Whether `pep_leaf_body` binds an `Option`; the raw item is one under a single plain `Option`. -/
def pepLeafOptional (shape : VecLayers) (raw : Run Operand) : Bool :=
  if shape.innerAccess.isEmpty || shape.innerAccess.isSinglePlainOption then shape.innerAccess.isSinglePlainOption
  else (accessChainToRef raw shape.innerAccess).hasOption

/-- `for raw in vec.iter() { let v = expr; push }` -/
def leafLoop {σ : Type} (expr : Operand → Run Operand) (push : σ → Operand → Run σ) : σ → Operand → Run σ :=
  forEach fun s raw => do push s (← expr raw)

def pepLeafBody (shape : VecLayers) (perElemPush : VecLeafBufs → Operand → Run VecLeafBufs) :
    VecLeafBufs → Operand → Run VecLeafBufs :=
  leafLoop (pepLeafExpr shape) perElemPush

/-- `pep_materialize`: the leaf array, then the stack of lists over it. -/
def pepMaterialize (pep : PerElementPush) (shape : VecLayers) (st : Bufs VecLeafBufs shape.layers.toList) : Run Series := do
  let leafArr ← pep.leafArrExpr (Bufs.leaf _ st)
  shapeAssembleListStack freezeMove leafArr (layerBufs _ st) pep.leafLogicalDtype

/-- The passes of `pep_emit`, for the leaf body and projection of the caller. -/
def pepEmit (pep : PerElementPush) (leafBody : VecLeafBufs → Operand → Run VecLeafBufs)
    (projection : Option LayerProjection) (shape : VecLayers) (access : Operand → Run Operand) (items : List Operand) :
    Run Series := do
  let counts ← ShapePrecount.build projection shape access items
  let storage := pep.storageDecls (Counts.total _ counts)
  let st ← ShapeScan.build ⟨leafBody, pep.leafOffsetsPostPush, projection⟩ shape access items (shapeDecls shape storage)
  pepMaterialize pep shape st

def vecEmitPep (pep : PerElementPush) (shape : VecLayers) (access : Operand → Run Operand) (items : List Operand) :
    Run Series :=
  pepEmit pep (pepLeafBody shape pep.perElemPush) none shape access items

/-- `vec_encoder` -/
def vecEncoder (name : String) (spec : VecLeafSpec) (shape : VecLayers) (leafDtype : DataType)
    (access : Operand → Run Operand) (items : List Operand) : Run (List Series) := do
  let series ← vecEmitPep (lowerToPep spec shape leafDtype) shape access items
  .ok [series.withName name]

/-- The loop body of the `bool` fast path: `flat.extend(iter().copied())`, then the offset. -/
def boolBareStep (access : Operand → Run Operand) (s : List Bool × List Nat) (it : Operand) : Run (List Bool × List Nat) := do
  let xs ← (Operand.ref (← access it)).vecIter
  let flat := s.1 ++ (← xs.mapM fun x => do boolOf (← x.deref))
  let offset ← listOffsetI64Expr flat.length
  .ok (flat, s.2 ++ [offset])

def boolBareDepth1Body (leafDtype : DataType) (access : Operand → Run Operand) (items : List Operand) : Run Series := do
  let _total ← items.foldlM (fun n it => do .ok (n + (← (Operand.ref (← access it)).vecLen))) 0
  let (flat, innerOffsets) ← items.foldlM (boolBareStep access) ([], [0])
  let leafArr : ArrowArray := .flat .boolean (flat.map .bool) none
  let offsetsBuf ← offsetsTryFrom innerOffsets
  let listArr ← largeListNew leafArr.dtype offsetsBuf leafArr none
  assembleHelper listArr leafDtype

/-- `vec_encoder_bool_bare` -/
def vecEncoderBoolBare (name : String) (shape : VecLayers) (access : Operand → Run Operand) (items : List Operand) :
    Run (List Series) :=
  let leafDtype := PrimitiveLeaf.bool.dtype
  if shape.depth = 1 ∧ ¬ shape.anyOuterValidity ∧ shape.innerAccess.isEmpty then do
    let series ← boolBareDepth1Body leafDtype access items
    .ok [series.withName name]
  else vecEncoder name .bool shape leafDtype access items

def tryBuildVecEncoder (tr : Traits) (name : String) (leaf : PrimitiveLeaf) (shape : VecLayers)
    (access : Operand → Run Operand) (items : List Operand) : Run (List Series) :=
  match leaf with
  | .bool =>
    if shape.hasInnerOption then
      let plan := vecLeafPlan tr leaf
      vecEncoder name plan.spec shape plan.leafDtype access items
    else vecEncoderBoolBare name shape access items
  | _ =>
    let plan := vecLeafPlan tr leaf
    vecEncoder name plan.spec shape plan.leafDtype access items

end DfDerive
