/-
  DfDerive.Codegen.ScopedBlocks — the columns' code by the names it binds and reads.

  The leaf builders (`encoder/leaf.rs`, `encoder/option.rs`, `encoder/vec.rs`), the blocks of
  nested and of projected columns (`encoder/emit.rs`, `encoder/nested_columns.rs`,
  `encoder/projected.rs`) and the body that splices them (`column_emit.rs`,
  `columnar_impl.rs`). A leaf value is read through the binder its reader stands under: the
  loop's, or the match arm's that binds the name again.
-/

import DfDerive.Codegen.ScopedWalks

namespace DfDerive.Scoped

open Lib Idents

/-! ## Declarations (`encoder/leaf.rs`) -/

def items : TokenStream := use [plain .items]

def vecDecl (buf : Ident) : TokenStream := letIn buf items

def mbDecl (i : Ident) : TokenStream := letIn i items

def mbDeclFilled (i : Ident) (capacity : TokenStream) : TokenStream :=
  letIn i (block (letIn bitmapBuilder capacity ++ use [bitmapBuilder] ++ capacity ++ use [bitmapBuilder]))

def rowIdxDecl (i : Ident) : TokenStream := letIn i .done

/-! ## Values (`type_registry/scalar_transform.rs`, `encoder/stringy.rs`) -/

/-- The transforms of temporal leaves read the value, the one of `Decimal` checks a mantissa. -/
def mapPrimitiveExpr (var : TokenStream) : ScalarTransform → TokenStream
  | .decimal _ _ =>
    let m := plain .mantissa
    block (matchOption var (.own m) (use [m] ++ block (use [m]) ++ use [m]) .done)
  | .naiveTime => block (var ++ var)
  | .naiveDate => block var
  | .dateTime _ | .naiveDateTime _ | .duration _ _ => var

inductive StringyExprKind where
  | bare
  | optionDeref
  | collapsedOption
  | mbvaValue

def stringyValueExpr (binding : TokenStream) : StringyExprKind → TokenStream
  | .bare | .mbvaValue => binding
  | .optionDeref | .collapsedOption => binding ++ closure (.own leafValue) (use [leafValue])

/-- `scratch.clear(); write!(scratch, .., value)?; scratch.as_str()`, around its user. -/
def displayInto (scratch : Ident) (value user : TokenStream) : TokenStream :=
  use [scratch, scratch] ++ value ++ closure (.own (plain .fmtErr)) (use [plain .fmtErr]) ++ user

/-! ## Row-wise leaves (`encoder/leaf.rs`, `encoder/option.rs`) -/

structure LeafCtx where
  access : TokenStream
  idx : Nat

structure LeafArm where
  decls : TokenStream
  push : TokenStream
  series : TokenStream

def numericLeaf (ctx : LeafCtx) : LeafArmKind → LeafArm
  | .bare =>
    let buf := primitiveBuf ctx.idx
    ⟨vecDecl buf, use [buf] ++ block ctx.access, use [buf]⟩
  | .option _ =>
    let buf := primitiveBuf ctx.idx
    let validity := primitiveValidity ctx.idx
    let arr := plain .arr
    ⟨vecDecl buf ++ mbDecl validity,
      matchOption ctx.access (.own leafValue) (use [buf, leafValue, validity]) (use [buf, validity]),
      block (letIn arr (use [buf, validity]) ++ use [arr])⟩

/-- The leaves with a view array: what a row pushes without an `Option`, and the scrutinee
    and the arm of the match with one. -/
def viewLeaf (ctx : LeafCtx) (extraDecls barePush scrutinee somePush : TokenStream) : LeafArmKind → LeafArm
  | .bare =>
    let buf := primitiveBuf ctx.idx
    ⟨vecDecl buf ++ extraDecls, barePush, block (use [buf])⟩
  | .option _ =>
    let buf := primitiveBuf ctx.idx
    let validity := primitiveValidity ctx.idx
    let rowIdx := primitiveRowIdx ctx.idx
    ⟨vecDecl buf ++ extraDecls ++ mbDeclFilled validity items ++ rowIdxDecl rowIdx,
      matchOption scrutinee (.own leafValue) somePush (use [buf, validity, rowIdx]) ++ use [rowIdx],
      block (use [buf, validity])⟩

def stringLeaf (ctx : LeafCtx) : LeafArmKind → LeafArm :=
  let buf := primitiveBuf ctx.idx
  viewLeaf ctx .done (use [buf] ++ ctx.access) ctx.access (use [buf, leafValue])

def binaryLeaf (ctx : LeafCtx) : LeafArmKind → LeafArm :=
  let buf := primitiveBuf ctx.idx
  viewLeaf ctx .done (use [buf] ++ ctx.access) ctx.access (use [buf, leafValue])

def boolLeaf (ctx : LeafCtx) : LeafArmKind → LeafArm
  | .bare =>
    let buf := primitiveBuf ctx.idx
    ⟨vecDecl buf, use [buf] ++ block ctx.access, use [buf]⟩
  | .option _ =>
    let buf := primitiveBuf ctx.idx
    let validity := primitiveValidity ctx.idx
    let rowIdx := primitiveRowIdx ctx.idx
    let arr := plain .arr
    ⟨mbDeclFilled buf items ++ mbDeclFilled validity items ++ rowIdxDecl rowIdx,
      ctx.access ++ block (use [buf, rowIdx]) ++ block .done ++ block (use [validity, rowIdx]) ++ use [rowIdx],
      block (letIn arr (use [buf, validity]) ++ use [arr])⟩

def mappedPush (ctx : LeafCtx) (leaf : ScalarTransform) : LeafArmKind → TokenStream
  | .bare => use [primitiveBuf ctx.idx] ++ block (mapPrimitiveExpr ctx.access leaf)
  | .option _ =>
    let buf := primitiveBuf ctx.idx
    matchOption ctx.access (.own leafValue) (use [buf] ++ block (mapPrimitiveExpr (use [leafValue]) leaf)) (use [buf])

def decimalLeaf (ctx : LeafCtx) (precision scale : Nat) (arm : LeafArmKind) : LeafArm :=
  let buf := primitiveBuf ctx.idx
  let ca := plain .ca
  ⟨vecDecl buf, mappedPush ctx (.decimal precision scale) arm, block (letIn ca (use [buf]) ++ use [ca])⟩

def mappedCastLeaf (ctx : LeafCtx) (leaf : ScalarTransform) (arm : LeafArmKind) : LeafArm :=
  let buf := primitiveBuf ctx.idx
  let s := plain .s
  ⟨vecDecl buf, mappedPush ctx leaf arm, block (letIn s (use [buf]) ++ use [s, s, s])⟩

def asStringLeaf (ctx : LeafCtx) (arm : LeafArmKind) : LeafArm :=
  let buf := primitiveBuf ctx.idx
  let scratch := primitiveStrScratch ctx.idx
  viewLeaf ctx (letIn scratch .done) (block (displayInto scratch ctx.access (use [buf, scratch]))) ctx.access
    (displayInto scratch (use [leafValue]) (use [buf, scratch])) arm

def asStrLeaf (ctx : LeafCtx) : LeafArmKind → LeafArm :=
  let buf := primitiveBuf ctx.idx
  viewLeaf ctx .done (use [buf] ++ stringyValueExpr ctx.access .bare) (stringyValueExpr ctx.access .optionDeref)
    (use [buf, leafValue])

def buildLeaf (ctx : LeafCtx) (leaf : PrimitiveLeaf) (kind : LeafArmKind) : LeafArm :=
  match leaf with
  | .numeric _ => numericLeaf ctx kind
  | .string => stringLeaf ctx kind
  | .bool => boolLeaf ctx kind
  | .binary => binaryLeaf ctx kind
  | .dateTime unit => mappedCastLeaf ctx (.dateTime unit) kind
  | .naiveDateTime unit => mappedCastLeaf ctx (.naiveDateTime unit) kind
  | .naiveDate => mappedCastLeaf ctx .naiveDate kind
  | .naiveTime => mappedCastLeaf ctx .naiveTime kind
  | .duration unit source => mappedCastLeaf ctx (.duration unit source) kind
  | .decimal precision scale => decimalLeaf ctx precision scale kind
  | .asString => asStringLeaf ctx kind
  | .asStr _ => asStrLeaf ctx kind

def wrapOptionAccessChainAsStr (ctx : LeafCtx) (access : AccessChain) : LeafArm :=
  let buf := primitiveBuf ctx.idx
  ⟨vecDecl buf, use [buf] ++ stringyValueExpr (accessChainToRef ctx.access access).expr .collapsedOption, use [buf]⟩

def wrapOptionAccessChainPrimitive (ctx : LeafCtx) (leaf : PrimitiveLeaf) (access : AccessChain) : LeafArm :=
  match leaf with
  | .asStr _ => wrapOptionAccessChainAsStr ctx access
  | leaf =>
    let local_ := Idents.multiOptionLocal ctx.idx
    let arm := buildLeaf { ctx with access := use [local_] } leaf (.option .refRef)
    { arm with push := letIn local_ (accessChainToOptionRef ctx.access access) ++ arm.push }

/-! ## Leaves below `Vec` layers (`encoder/vec.rs`) -/

/-- The value expressions read the leaf value where it is bound. -/
inductive VecLeafSpec where
  | numeric (valueExpr : Binder Ident → TokenStream)
  | stringLike (valueExpr : Binder Ident → TokenStream) (extraDecls : TokenStream)
  | binaryLike (valueExpr : Binder Ident → TokenStream)
  | bool

structure LeafPieces where
  storage : TokenStream
  push : TokenStream
  leafArr : TokenStream

def leafOffsetsPostPush : VecLeafSpec → TokenStream
  | .numeric _ => use [vecFlat]
  | .stringLike _ _ | .binaryLike _ => use [vecViewBuf]
  | .bool => use [vecLeafIdx]

def leafIdxDecl : TokenStream := letIn vecLeafIdx .done

def boolBareLeafPieces (capacity : TokenStream) : LeafPieces where
  storage := mbDeclFilled boolValues capacity ++ leafIdxDecl
  push := use [leafValue] ++ block (use [boolValues, vecLeafIdx]) ++ use [vecLeafIdx]
  leafArr := letIn leafArr (use [boolValues])

def boolInnerOptionLeafPieces (capacity : TokenStream) : LeafPieces where
  storage := mbDeclFilled boolValues capacity ++ mbDeclFilled boolValidity capacity ++ leafIdxDecl
  push := use [leafValue] ++ block (use [boolValues, vecLeafIdx]) ++ block .done ++ block (use [boolValidity, vecLeafIdx]) ++
    use [vecLeafIdx]
  leafArr := letIn leafArr (use [boolValues, boolValidity])

def numericLeafPieces (valueExpr : Binder Ident → TokenStream) (hasInnerOption : Bool) (capacity : TokenStream) : LeafPieces :=
  if hasInnerOption then
    { storage := letIn vecFlat capacity ++ mbDeclFilled boolValidity capacity
      push := matchOption (use [leafValue]) (.again leafValue) (use [vecFlat] ++ block (valueExpr (.again leafValue)))
        (use [vecFlat, boolValidity, vecFlat])
      leafArr := letIn leafArr (use [vecFlat, boolValidity]) }
  else
    { storage := letIn vecFlat capacity
      push := use [vecFlat] ++ valueExpr (.own leafValue)
      leafArr := letIn leafArr (use [vecFlat]) }

/-- `string_like_leaf_pieces` and `binary_like_leaf_pieces` -/
def viewLeafPieces (valueExpr : Binder Ident → TokenStream) (extraDecls : TokenStream) (hasInnerOption : Bool)
    (capacity : TokenStream) : LeafPieces :=
  if hasInnerOption then
    { storage := extraDecls ++ letIn vecViewBuf capacity ++ mbDeclFilled boolValidity capacity ++ leafIdxDecl
      push := matchOption (use [leafValue]) (.again leafValue) (use [vecViewBuf] ++ block (valueExpr (.again leafValue)))
        (use [vecViewBuf, boolValidity, vecLeafIdx]) ++ use [vecLeafIdx]
      leafArr := letIn leafArr (use [vecViewBuf, boolValidity]) }
  else
    { storage := extraDecls ++ letIn vecViewBuf capacity
      push := use [vecViewBuf] ++ block (valueExpr (.own leafValue))
      leafArr := letIn leafArr (use [vecViewBuf]) }

def buildVecLeafPieces (spec : VecLeafSpec) (hasInnerOption : Bool) (capacity : TokenStream) : LeafPieces :=
  match spec with
  | .numeric valueExpr => numericLeafPieces valueExpr hasInnerOption capacity
  | .stringLike valueExpr extraDecls => viewLeafPieces valueExpr extraDecls hasInnerOption capacity
  | .binaryLike valueExpr => viewLeafPieces valueExpr .done hasInnerOption capacity
  | .bool => if hasInnerOption then boolInnerOptionLeafPieces capacity else boolBareLeafPieces capacity

def mappedNumericPlan (leaf : ScalarTransform) : VecLeafSpec := .numeric fun v => mapPrimitiveExpr (read v) leaf

def vecLeafPlan (leaf : PrimitiveLeaf) (idx : Nat) : VecLeafSpec :=
  match leaf with
  | .numeric _ => .numeric read
  | .string => .stringLike read .done
  | .binary => .binaryLike read
  | .bool => .bool
  | .dateTime unit => mappedNumericPlan (.dateTime unit)
  | .naiveDateTime unit => mappedNumericPlan (.naiveDateTime unit)
  | .naiveTime => mappedNumericPlan .naiveTime
  | .duration unit source => mappedNumericPlan (.duration unit source)
  | .naiveDate => mappedNumericPlan .naiveDate
  | .decimal precision scale => mappedNumericPlan (.decimal precision scale)
  | .asString =>
    let scratch := primitiveStrScratch idx
    .stringLike (fun v => block (displayInto scratch (read v) (use [scratch]))) (letIn scratch .done)
  | .asStr _ => .stringLike (fun v => stringyValueExpr (read v) .mbvaValue) .done

/-- `pep_for_primitive_leaf` -/
def pepForPrimitiveLeaf (leaf : PrimitiveLeaf) (idx : Nat) (shape : VecLayers) : LeafPieces :=
  buildVecLeafPieces (vecLeafPlan leaf idx) shape.hasInnerOption (use [totalLeaves])

def pepLeafBody (shape : VecLayers) (perElemPush vecBind : TokenStream) : TokenStream :=
  if shape.innerAccess.isEmpty || shape.innerAccess.isSinglePlainOption then forIn leafValue vecBind perElemPush
  else forIn leafValueRaw vecBind (letIn leafValue (accessChainToRef (use [leafValueRaw]) shape.innerAccess).expr ++ perElemPush)

/-- `pep_materialize` and `projected_materialize` -/
def pepMaterialize (e : ShapeEmitter) (leafArrExpr : TokenStream) (arrIdForLayer : Nat → Ident) : TokenStream :=
  leafArrExpr ++ letIn seedArrowDtype (use [leafArr]) ++
    shapeAssembleListStack (use [leafArr]) (use [seedArrowDtype]) (shapeLayerWrapsMove e.shape e.layers) .done arrIdForLayer

/-- The series of a primitive leaf below `Vec` layers, scanned with the given leaf body. -/
def pepSeries (e : ShapeEmitter) (idx : Nat) (pep : LeafPieces) (leafBody : TokenStream → TokenStream)
    (leafOffsetsPostPush : TokenStream) (arrIdForLayer : Nat → Ident) : TokenStream :=
  letIn (vecFieldSeries idx) (block (e.precount ++ pep.storage ++ e.offsetsDecls ++ e.validityDecls ++
    e.scan leafBody leafOffsetsPostPush ++ pepMaterialize e pep.leafArr arrIdForLayer))

/-- `let named = series.with_name(..); columns.push(named.into());` -/
def pushNamed (series : Ident) : TokenStream :=
  letIn fieldNamedSeries (use [series]) ++ use [columns, fieldNamedSeries]

/-- `vec_encoder`, with `pep_emit` -/
def vecEncoder (ctx : LeafCtx) (leaf : PrimitiveLeaf) (shape : VecLayers) : TokenStream :=
  let pep := pepForPrimitiveLeaf leaf ctx.idx shape
  block (pepSeries (.vec shape ctx.access) ctx.idx pep (pepLeafBody shape pep.push)
    (leafOffsetsPostPush (vecLeafPlan leaf ctx.idx)) vecLayerListArr ++ pushNamed (vecFieldSeries ctx.idx))

def boolBareDepth1Body (access : TokenStream) : TokenStream :=
  letIn totalLeaves .done ++
    forIn populatorIter items (use [totalLeaves] ++ access) ++
    letIn vecFlat (use [totalLeaves]) ++
    letIn boolInnerOffsets items ++ use [boolInnerOffsets] ++
    forIn populatorIter items (use [vecFlat] ++ access ++ letIn listOffset (listOffsetI64Expr (use [vecFlat])) ++
      use [boolInnerOffsets, listOffset]) ++
    letIn leafArr (use [vecFlat]) ++
    letIn boolBareOffsetsBuf (use [boolInnerOffsets]) ++
    letIn boolBareListArr (use [leafArr, boolBareOffsetsBuf, leafArr]) ++
    use [helper .assembleHelper, boolBareListArr]

def vecEncoderBoolBare (ctx : LeafCtx) (shape : VecLayers) : TokenStream :=
  if shape.depth = 1 ∧ ¬ shape.anyOuterValidity ∧ shape.innerAccess.isEmpty then
    block (letIn (vecFieldSeries ctx.idx) (block (boolBareDepth1Body ctx.access)) ++ pushNamed (vecFieldSeries ctx.idx))
  else vecEncoder ctx .bool shape

def tryBuildVecEncoder (ctx : LeafCtx) (leaf : PrimitiveLeaf) (shape : VecLayers) : TokenStream :=
  match leaf with
  | .bool => if shape.hasInnerOption then vecEncoder ctx .bool shape else vecEncoderBoolBare ctx shape
  | leaf => vecEncoder ctx leaf shape

/-! ## Columns of nested rows (`encoder/nested_columns.rs`) -/

inductive NestedWrapper where
  | none
  | list (shape : VecLayers) (layers : Nat → LayerIdents) (arrIdForLayer : Nat → Ident)

structure NestedMaterializeCtx where
  fieldIdx : Nat
  flat : Ident
  positions : Option Ident
  totalLen : TokenStream
  wrapper : NestedWrapper

structure NestedMaterializeBranches where
  validityFreeze : TokenStream
  offsetsFreeze : TokenStream
  dfDecl : TokenStream
  takeDecl : TokenStream
  consumeDirect : TokenStream
  consumeTake : TokenStream
  consumeEmpty : TokenStream
  consumeAllAbsent : TokenStream

def nestedMaterializeDispatch (kind : NestedMaterializeKind) (flat : Ident) (totalLen : TokenStream)
    (b : NestedMaterializeBranches) : TokenStream :=
  match kind with
  | .leafBare => b.dfDecl ++ b.consumeDirect
  | .leafOptional =>
    use [flat] ++ block b.consumeAllAbsent ++ use [flat] ++ totalLen ++ block (b.dfDecl ++ b.consumeDirect) ++
      block (b.dfDecl ++ b.takeDecl ++ b.consumeTake)
  | .vec true =>
    b.validityFreeze ++ totalLen ++ block (b.offsetsFreeze ++ b.consumeEmpty) ++ use [flat] ++
      block (b.offsetsFreeze ++ b.consumeAllAbsent) ++ use [flat] ++ totalLen ++
      block (b.dfDecl ++ b.offsetsFreeze ++ b.consumeDirect) ++
      block (b.dfDecl ++ b.takeDecl ++ b.offsetsFreeze ++ b.consumeTake)
  | .vec false =>
    b.validityFreeze ++ use [flat] ++ block (b.offsetsFreeze ++ b.consumeEmpty) ++
      block (b.dfDecl ++ b.offsetsFreeze ++ b.consumeDirect)

def nestedDfDecl (df flat : Ident) : TokenStream := letIn df (use [flat]) ++ use [helper .validateNestedFrame, df, flat]

def nestedTakeDecl (take positions : Ident) : TokenStream := letIn take (use [positions])

/-- Inside the loop over the schema the column's name and dtype are the borrowed ones. -/
def colName : TokenStream := read (.again nestedColName)

def colDtype : TokenStream := read (.again nestedColDtype)

/-- `inner_full`, checked, around what is made of it. -/
def innerCol (df : Ident) (result : TokenStream) : TokenStream :=
  block (letIn nestedInnerFull (use [df] ++ colName) ++ use [helper .validateNestedColumnDtype, nestedInnerFull] ++ colName ++
    colDtype ++ result)

def buildInnerColDirect (df : Ident) : TokenStream := innerCol df (use [nestedInnerFull])

def buildInnerColTake (df take : Ident) : TokenStream := innerCol df (use [nestedInnerFull, take])

def buildInnerColEmpty : TokenStream := colDtype

def buildInnerColAllAbsent (len : TokenStream) : TokenStream := colDtype ++ len

def wrapNestedColumn (wrapper : NestedWrapper) (innerColExpr : TokenStream) : TokenStream :=
  match wrapper with
  | .none => innerColExpr
  | .list shape layers arrIdForLayer =>
    block (letIn nestedInnerCol innerColExpr ++ letIn nestedInnerRech (use [nestedInnerCol]) ++
      letIn nestedInnerChunk (use [nestedInnerRech]) ++
      shapeAssembleListStack (use [nestedInnerChunk]) (use [nestedInnerChunk]) (shapeLayerWrapsClone shape layers) colDtype
        arrIdForLayer)

/-- `compose_nested_name`, whatever the policy. -/
def composeNestedName (innerName : TokenStream) : TokenStream := innerName

def consumeNestedColumns (seriesExpr : TokenStream) : TokenStream :=
  .scope (.bind (.own nestedColName) (.bind (.own nestedColDtype)
    (use [nestedColName] ++ .bind (.again nestedColName) (use [nestedColDtype] ++ .bind (.again nestedColDtype)
      (block (letIn nestedPrefixedName (composeNestedName colName) ++ letIn nestedInnerSeries seriesExpr ++
        letIn fieldNamedSeries (use [nestedInnerSeries, nestedPrefixedName]) ++ use [columns, fieldNamedSeries])))))) .done

def materializeNestedColumns (ctx : NestedMaterializeCtx) : TokenStream :=
  let df := nestedDf ctx.fieldIdx
  let take := nestedTake ctx.fieldIdx
  let kind : NestedMaterializeKind := match ctx.wrapper with
    | .none => if ctx.positions.isSome then .leafOptional else .leafBare
    | .list .. => .vec ctx.positions.isSome
  let (validityFreeze, offsetsFreeze) := match ctx.wrapper with
    | .none => (.done, .done)
    | .list shape layers _ => (shapeFreezeValidityBitmaps shape layers, shapeFreezeOffsetsBuffers shape layers)
  nestedMaterializeDispatch kind ctx.flat ctx.totalLen
    { validityFreeze
      offsetsFreeze
      dfDecl := nestedDfDecl df ctx.flat
      takeDecl := ctx.positions.elim .done (nestedTakeDecl take)
      consumeDirect := consumeNestedColumns (wrapNestedColumn ctx.wrapper (buildInnerColDirect df))
      consumeTake := consumeNestedColumns (wrapNestedColumn ctx.wrapper (buildInnerColTake df take))
      consumeEmpty := consumeNestedColumns (wrapNestedColumn ctx.wrapper buildInnerColEmpty)
      consumeAllAbsent := consumeNestedColumns (wrapNestedColumn ctx.wrapper (buildInnerColAllAbsent ctx.totalLen)) }

/-! ## Nested leaves (`encoder/emit.rs`) -/

def ctbDepth0MatchExpr (access : TokenStream) (accessChain : AccessChain) (optionLayers : Nat) : TokenStream :=
  if accessChain.isSinglePlainOption then access
  else if accessChain.isOnlyOptions then collapseOptionsToRef access optionLayers
  else (accessChainToRef access accessChain).expr

def ctbDepth0RefExpr (access : TokenStream) (accessChain : AccessChain) : TokenStream :=
  if accessChain.isEmpty then access else (accessChainToRef access accessChain).expr

/-- A position and the value, or no position. -/
def ctbMatch (flat positions : Ident) (scrutinee : TokenStream) : TokenStream :=
  matchOption scrutinee (.own leafValue) (use [positions] ++ idxSizeLenExpr flat ++ use [flat, leafValue]) (use [positions])

def ctbLeafBody (shape : VecLayers) (flat positions : Ident) (vecBind : TokenStream) : TokenStream :=
  if shape.innerAccess.isEmpty then forIn leafValue vecBind (use [flat, leafValue])
  else if shape.innerAccess.isSinglePlainOption then
    forIn nestedMaybe vecBind (ctbMatch flat positions (use [nestedMaybe]))
  else
    let chainRef := accessChainToRef (use [leafValueRaw]) shape.innerAccess
    if chainRef.hasOption then forIn leafValueRaw vecBind (ctbMatch flat positions chainRef.expr)
    else forIn leafValueRaw vecBind (letIn leafValue chainRef.expr ++ use [flat, leafValue])

def ctbLeafScanDepth0 (access : TokenStream) (flat positions : Ident) (optionLayers : Nat) (accessChain : AccessChain) :
    TokenStream :=
  if optionLayers = 0 then forIn populatorIter items (use [flat] ++ ctbDepth0RefExpr access accessChain)
  else forIn populatorIter items (ctbMatch flat positions (ctbDepth0MatchExpr access accessChain optionLayers))

/-- What is bound for the absent rows or elements. -/
def positionsDecl (needsPositions : Bool) (positions : Ident) (capacity : TokenStream) : TokenStream :=
  if needsPositions then letIn positions capacity else .done

/-- The offsets of a nested leaf count its slots. -/
def nestedOffsetsPostPush (shape : VecLayers) (flat positions : Ident) : TokenStream :=
  if shape.hasInnerOption then use [positions] else use [flat]

/-- The collection of a nested leaf below `Vec` layers, and the columns made of it. -/
def nestedVecBlock (e : ShapeEmitter) (idx : Nat) (leafBody : TokenStream → TokenStream) (arrIdForLayer : Nat → Ident) :
    TokenStream :=
  let flat := nestedFlat idx
  let positions := nestedPositions idx
  let total := use [nestedTotal idx]
  block (e.precount ++ letIn flat total ++ positionsDecl e.shape.hasInnerOption positions total ++ e.offsetsDecls ++
    e.validityDecls ++ e.scan leafBody (nestedOffsetsPostPush e.shape flat positions) ++
    materializeNestedColumns ⟨idx, flat, if e.shape.hasInnerOption then some positions else none, total,
      .list e.shape e.layers arrIdForLayer⟩)

/-- `vec_emit_ctb`, with `ctb_emit` and `ctb_materialize` -/
def buildNestedEncoder (wrapper : WrapperShape) (access : TokenStream) (idx : Nat) : TokenStream :=
  let flat := nestedFlat idx
  let positions := nestedPositions idx
  match wrapper with
  | .leaf .bare =>
    block (letIn flat items ++ ctbLeafScanDepth0 access flat positions 0 .empty ++
      materializeNestedColumns ⟨idx, flat, none, items, .none⟩)
  | .leaf (.optional optionLayers accessChain) =>
    block (letIn flat items ++ letIn positions items ++ ctbLeafScanDepth0 access flat positions optionLayers accessChain ++
      materializeNestedColumns ⟨idx, flat, some positions, items, .none⟩)
  | .vec shape => nestedVecBlock (.nested idx shape access) idx (ctbLeafBody shape flat positions) nestedLayerListArr

/-! ## Columns below a tuple's `Vec` layers (`encoder/projected.rs`) -/

def applyElementAccess (projectedRef : TokenStream) (elementAccess : AccessChain) : TokenStream :=
  if 0 < elementAccess.optionLayers then accessChainToOptionRef projectedRef elementAccess
  else (accessChainToRef projectedRef elementAccess).expr

def projectedLeafExpr (rawBind : Ident) (projection : LayerProjection) (elementAccess : AccessChain) : TokenStream :=
  if 0 < projection.parentAccess.optionLayers then
    let param := tupleProjParam
    let projectedRef := projectFrom (use [param])
    accessChainToOptionRef (use [rawBind]) projection.parentAccess ++ closure (.own param)
      (if 0 < elementAccess.optionLayers then accessChainToOptionRef projectedRef elementAccess
        else (accessChainToRef projectedRef elementAccess).expr)
  else applyElementAccess (projectFrom (accessChainToRef (use [rawBind]) projection.parentAccess).expr) elementAccess

def projectedLeafBody (projection : LayerProjection) (elementAccess : AccessChain) (perElemPush vecBind : TokenStream) :
    TokenStream :=
  forIn leafValueRaw vecBind (letIn leafValue (projectedLeafExpr leafValueRaw projection elementAccess) ++ perElemPush)

def projectedScanLeafBody (shape : VecLayers) (projection : LayerProjection) (perElemPush vecBind : TokenStream) :
    TokenStream :=
  match leafProjectionAccess shape projection with
  | some elementAccess => projectedLeafBody projection elementAccess perElemPush vecBind
  | none => pepLeafBody shape perElemPush vecBind

def projectedParentAccess : TokenStream := use [populatorIter]

def emitProjectedVecPrimitive (idx : Nat) (shape : VecLayers) (projection : LayerProjection) (leaf : PrimitiveLeaf) :
    TokenStream :=
  let pep := pepForPrimitiveLeaf leaf idx shape
  block (pepSeries (.tuple idx shape projectedParentAccess totalLeaves projection) idx pep
    (projectedScanLeafBody shape projection pep.push) (leafOffsetsPostPush (vecLeafPlan leaf idx)) tupleLayerListArr ++
    pushNamed (vecFieldSeries idx))

/-- The push of `emit_projected_vec_nested`. -/
def projectedNestedPush (shape : VecLayers) (flat positions : Ident) : TokenStream :=
  if shape.hasInnerOption then
    matchOption (use [leafValue]) (.own tupleNestedInnerV)
      (use [positions] ++ idxSizeLenExpr flat ++ use [flat, tupleNestedInnerV]) (use [positions])
  else use [flat, leafValue]

def emitProjectedVecNested (idx : Nat) (shape : VecLayers) (projection : LayerProjection) : TokenStream :=
  nestedVecBlock (.tuple idx shape projectedParentAccess (nestedTotal idx) projection) idx
    (projectedScanLeafBody shape projection (projectedNestedPush shape (nestedFlat idx) (nestedPositions idx)))
    tupleLayerListArr

/-! ## Columns (`source_access.rs`, `encoder/ctx.rs`, `column_emit.rs`) -/

inductive Encoder where
  | leaf (arm : LeafArm)
  | multi (columnar : TokenStream)

/-- The receiver of an optional value changes how the value is read, not which name. -/
def buildEncoder (ctx : LeafCtx) (leaf : PrimitiveLeaf) (wrapper : WrapperShape) : Encoder :=
  match wrapper with
  | .leaf .bare => .leaf (buildLeaf ctx leaf .bare)
  | .leaf (.optional optionLayers access) =>
    if optionLayers = 1 ∧ access.isSinglePlainOption then .leaf (buildLeaf ctx leaf (.option .ref))
    else .leaf (wrapOptionAccessChainPrimitive ctx leaf access)
  | .vec layers => .multi (tryBuildVecEncoder ctx leaf layers)

/-- `field_source_access` and `tuple_static_access` -/
def fieldSourceAccess : TokenStream := use [populatorIter]

def tupleParentOptionAccess (column : TupleParentOptionColumn) : TokenStream :=
  accessChainToOptionRef fieldSourceAccess column.parentAccess ++ closure (.own tupleProjParam) (use [tupleProjParam])

inductive ColumnEmit where
  | rowWise (decls push builder : TokenStream)
  | wholeColumn (builder : TokenStream)

namespace ColumnEmit

def decls : ColumnEmit → TokenStream
  | rowWise decls _ _ => decls
  | wholeColumn _ => .done

def push? : ColumnEmit → Option TokenStream
  | rowWise _ push _ => some push
  | wholeColumn _ => none

def builder : ColumnEmit → TokenStream
  | rowWise _ _ builder => builder
  | wholeColumn builder => builder

end ColumnEmit

def buildFieldColumnEmit (idx : Nat) (column : FieldColumn) : ColumnEmit :=
  match column.leafSpec.route with
  | .nested _ => .wholeColumn (buildNestedEncoder column.wrapperShape fieldSourceAccess idx)
  | .primitive leaf =>
    match buildEncoder ⟨fieldSourceAccess, idx⟩ leaf column.wrapperShape with
    | .leaf arm =>
      let s := plain .s
      .rowWise arm.decls arm.push (block (letIn s arm.series ++ use [columns, s]))
    | .multi columnar => .wholeColumn columnar

def buildProjectedStandardEmit (idx : Nat) (leafSpec : TerminalLeafSpec) (wrapperShape : WrapperShape) (access : TokenStream) :
    ColumnEmit :=
  match leafSpec.route with
  | .nested _ => .wholeColumn (buildNestedEncoder wrapperShape access idx)
  | .primitive leaf =>
    match buildEncoder ⟨access, idx⟩ leaf wrapperShape with
    | .leaf arm =>
      .wholeColumn (block (arm.decls ++ forIn populatorIter items arm.push ++ letIn (vecFieldSeries idx) arm.series ++
        pushNamed (vecFieldSeries idx)))
    | .multi columnar => .wholeColumn columnar

def buildParentVecProjectionEmit (idx : Nat) (column : TupleParentVecColumn) : ColumnEmit :=
  match column.leafSpec.route with
  | .nested _ => .wholeColumn (emitProjectedVecNested idx column.wrapperShape (parentVecProjection column))
  | .primitive leaf => .wholeColumn (emitProjectedVecPrimitive idx column.wrapperShape (parentVecProjection column) leaf)

def buildColumnEmit (idx : Nat) : ColumnIR → ColumnEmit
  | .field column => buildFieldColumnEmit idx column
  | .tupleStatic column => buildProjectedStandardEmit idx column.leafSpec column.wrapperShape fieldSourceAccess
  | .tupleParentOption column =>
    buildProjectedStandardEmit idx column.leafSpec column.wrapperShape (tupleParentOptionAccess column)
  | .tupleParentVec column => buildParentVecProjectionEmit idx column

/-! ## Methods (`columnar_impl.rs`) -/

structure ColumnarParts where
  decls : List TokenStream
  pushes : List TokenStream
  builders : List TokenStream

def prepareColumnarParts (ir : StructIR) : ColumnarParts :=
  let emits := ir.columns.mapIdx buildColumnEmit
  ⟨emits.map ColumnEmit.decls, emits.filterMap ColumnEmit.push?, emits.map ColumnEmit.builder⟩

def pushLoop (pushes : List TokenStream) : TokenStream :=
  if pushes.isEmpty then .done else forIn populatorIter items (.seq pushes)

def uniqueNameValidation (ir : StructIR) : TokenStream :=
  if needsUniqueNameValidation ir then
    use [helper .validateUniqueColumnNames, columns] ++ closure (.own (plain .column)) (use [plain .column])
  else .done

/-- A frame without columns keeps its height through a dummy. -/
def heightFrame : TokenStream :=
  let numRows := plain .numRows
  let dummy := plain .dummy
  let df := plain .df
  block (letIn numRows items ++ letIn dummy (use [numRows]) ++ letIn df (use [dummy]) ++ use [df, df])

def columnarMethodBody (ir : StructIR) : TokenStream :=
  let parts := prepareColumnarParts ir
  items ++ .seq parts.decls ++ pushLoop parts.pushes ++ letIn columns .done ++ .seq parts.builders ++
    uniqueNameValidation ir ++ use [columns] ++ heightFrame ++ use [columns]

/-- The scope of the methods: their parameter, inside the helpers of the expansion. -/
def methodScope (ir : StructIR) : List (Binder Ident) :=
  .own (plain .items) :: (generateCode ir).defined.map fun h => .own (helper h)

end DfDerive.Scoped
