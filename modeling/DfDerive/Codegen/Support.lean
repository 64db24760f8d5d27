/-
  DfDerive.Codegen.Support — the helpers of an expansion (`support.rs`, `codegen/mod.rs`).

  An expansion defines private helpers next to the generated impls: one assembles list
  series, two check what a nested type returns, one rejects duplicate names. Here a token
  stream is the list of helpers it names, in order; the emitters are those of the source,
  every other stream they splice (accesses, types, leaf statements, `plain`) naming none.
-/

import DfDerive.Codegen.Columnar

namespace DfDerive

/-- The items of `generate_support`. -/
inductive Helper where
  | listAssembly
  | assembleHelper
  | validateNestedFrame
  | validateNestedColumnDtype
  | validateUniqueColumnNames
  deriving DecidableEq, Repr

/-- A token stream, by the helpers it names. -/
abbrev Tokens : Type := List Helper

namespace Tokens

/-- A stream that names no helper. -/
def plain : Tokens := []

/-! ## Lists (`encoder/shape_walk.rs`, `encoder/emit.rs`, `encoder/vec.rs`) -/

/-- `shape_assemble_list_stack`, `freezes` being the declarations of the layers, outermost
    first: the innermost array is built from the seed, every other from the one below it. -/
def shapeAssembleListStack (seed seedDtype : Tokens) (freezes : List Tokens) (leafLogicalDtype : Tokens) : Tokens :=
  let (block, _, _) := freezes.foldr
    (fun freeze (block, payload, dtype) => (block ++ (freeze ++ dtype ++ payload), plain, plain)) (plain, seed, seedDtype)
  block ++ [.assembleHelper] ++ leafLogicalDtype

/-- `layer_wraps_move`, `shape_layer_wraps_clone` -/
def layerWraps (shape : VecLayers) : List Tokens := shape.layers.toList.map fun _ => plain

structure PerElementPush where
  perElemPush : Tokens
  storageDecls : Tokens
  leafArrExpr : Tokens
  leafOffsetsPostPush : Tokens
  extraImports : Tokens
  leafLogicalDtype : Tokens

/-- `pep_for_primitive_leaf` -/
def pepForPrimitiveLeaf : PerElementPush := ⟨plain, plain, plain, plain, plain, plain⟩

/-- `pep_materialize`, `projected_materialize` -/
def pepMaterialize (pep : PerElementPush) (shape : VecLayers) : Tokens :=
  pep.leafArrExpr ++ plain ++ shapeAssembleListStack plain plain (layerWraps shape) pep.leafLogicalDtype

/-- `ShapeEmitter::scan`, around the leaf loop. -/
def scan (access leafBody leafOffsetsPostPush : Tokens) : Tokens := access ++ leafBody ++ leafOffsetsPostPush

/-- `pep_emit`, and the block of `emit_projected_vec_primitive`. -/
def pepEmit (pep : PerElementPush) (access : Tokens) (shape : VecLayers) : Tokens :=
  pep.extraImports ++ access ++ pep.storageDecls ++ plain ++ plain ++ scan access pep.perElemPush pep.leafOffsetsPostPush ++
    pepMaterialize pep shape

inductive Encoder where
  | leaf (decls push series : Tokens)
  | multi (columnar : Tokens)

def vecEncoder (access : Tokens) (shape : VecLayers) : Encoder := .multi (pepEmit pepForPrimitiveLeaf access shape ++ plain)

def boolBareDepth1Body (access : Tokens) : Tokens := access ++ access ++ [.assembleHelper] ++ plain

def vecEncoderBoolBare (access : Tokens) (shape : VecLayers) : Encoder :=
  if shape.depth = 1 ∧ ¬ shape.anyOuterValidity ∧ shape.innerAccess.isEmpty then .multi (boolBareDepth1Body access ++ plain)
  else vecEncoder access shape

def tryBuildVecEncoder (leaf : PrimitiveLeaf) (access : Tokens) (shape : VecLayers) : Encoder :=
  match leaf with
  | .bool => if shape.hasInnerOption then vecEncoder access shape else vecEncoderBoolBare access shape
  | _ => vecEncoder access shape

/-! ## Scalars (`encoder/leaf.rs`, `encoder/option.rs`, `encoder/ctx.rs`) -/

/-- `build_leaf`: the arm of every leaf. -/
def buildLeaf (access : Tokens) : Encoder := .leaf plain access plain

def wrapOptionAccessChainPrimitive (access : Tokens) : Encoder := .leaf plain access plain

def buildEncoderWithOptionReceiver (leaf : PrimitiveLeaf) (wrapper : WrapperShape) (access : Tokens) : Encoder :=
  match wrapper with
  | .leaf .bare => buildLeaf access
  | .leaf (.optional optionLayers chain) =>
    if optionLayers = 1 ∧ chain.isSinglePlainOption then buildLeaf access else wrapOptionAccessChainPrimitive access
  | .vec layers => tryBuildVecEncoder leaf access layers

/-! ## Nested rows (`encoder/nested_columns.rs`, `encoder/emit.rs`, `encoder/projected.rs`) -/

inductive NestedWrapper where
  | none
  | list (shape : VecLayers)

structure NestedMaterializeBranches where
  validityFreeze : Tokens
  offsetsFreeze : Tokens
  dfDecl : Tokens
  takeDecl : Tokens
  consumeDirect : Tokens
  consumeTake : Tokens
  consumeEmpty : Tokens
  consumeAllAbsent : Tokens

def nestedMaterializeDispatch (kind : NestedMaterializeKind) (b : NestedMaterializeBranches) : Tokens :=
  match kind with
  | .leafBare => b.dfDecl ++ b.consumeDirect
  | .leafOptional => b.consumeAllAbsent ++ (b.dfDecl ++ b.consumeDirect) ++ (b.dfDecl ++ b.takeDecl ++ b.consumeTake)
  | .vec true =>
    b.validityFreeze ++ (b.offsetsFreeze ++ b.consumeEmpty) ++ (b.offsetsFreeze ++ b.consumeAllAbsent) ++
      (b.dfDecl ++ b.offsetsFreeze ++ b.consumeDirect) ++ (b.dfDecl ++ b.takeDecl ++ b.offsetsFreeze ++ b.consumeTake)
  | .vec false =>
    b.validityFreeze ++ (b.offsetsFreeze ++ b.consumeEmpty) ++ (b.dfDecl ++ b.offsetsFreeze ++ b.consumeDirect)

def nestedDfDecl : Tokens := [.validateNestedFrame]

def nestedTakeDecl : Tokens := plain

def buildInnerColDirect : Tokens := [.validateNestedColumnDtype]

def buildInnerColTake : Tokens := [.validateNestedColumnDtype]

def buildInnerColEmpty : Tokens := plain

def buildInnerColAllAbsent : Tokens := plain

def wrapNestedColumn (wrapper : NestedWrapper) (innerCol : Tokens) : Tokens :=
  match wrapper with
  | .none => innerCol
  | .list shape => innerCol ++ shapeAssembleListStack plain plain (layerWraps shape) plain

def consumeNestedColumns (seriesExpr : Tokens) : Tokens := plain ++ seriesExpr ++ plain

/-- `positions` when the context has them. -/
def materializeNestedColumns (positions : Bool) (wrapper : NestedWrapper) : Tokens :=
  let kind : NestedMaterializeKind := match wrapper with
    | .none => if positions then .leafOptional else .leafBare
    | .list _ => .vec positions
  nestedMaterializeDispatch kind
    { validityFreeze := plain
      offsetsFreeze := plain
      dfDecl := nestedDfDecl
      takeDecl := if positions then nestedTakeDecl else plain
      consumeDirect := consumeNestedColumns (wrapNestedColumn wrapper buildInnerColDirect)
      consumeTake := consumeNestedColumns (wrapNestedColumn wrapper buildInnerColTake)
      consumeEmpty := consumeNestedColumns (wrapNestedColumn wrapper buildInnerColEmpty)
      consumeAllAbsent := consumeNestedColumns (wrapNestedColumn wrapper buildInnerColAllAbsent) }

def ctbMaterialize : WrapperShape → Tokens
  | .leaf .bare => materializeNestedColumns false .none
  | .leaf (.optional _ _) => materializeNestedColumns true .none
  | .vec shape => materializeNestedColumns shape.hasInnerOption (.list shape)

/-- `ctb_emit`: the scan, and the columns made of what it collects. -/
def buildNestedEncoder (wrapper : WrapperShape) (access : Tokens) : Tokens := scan access plain plain ++ ctbMaterialize wrapper

def buildProjectedVecPrimitive (shape : VecLayers) (access : Tokens) : Tokens := pepEmit pepForPrimitiveLeaf access shape ++ plain

def buildProjectedVecNested (shape : VecLayers) (access : Tokens) : Tokens :=
  scan access plain plain ++ materializeNestedColumns shape.hasInnerOption (.list shape)

/-! ## Columns (`column_emit.rs`) -/

inductive ColumnEmit where
  | rowWise (decls push builders : Tokens)
  | wholeColumn (builders : Tokens)

/-- `field_column_access` and its like. -/
def columnAccess : Tokens := plain

def buildFieldColumnEmit (column : FieldColumn) : ColumnEmit :=
  match column.leafSpec.route with
  | .nested _ => .wholeColumn (buildNestedEncoder column.wrapperShape columnAccess)
  | .primitive leaf => match buildEncoderWithOptionReceiver leaf column.wrapperShape columnAccess with
    | .leaf decls push series => .rowWise decls push series
    | .multi columnar => .wholeColumn columnar

def buildProjectedStandardEmit (leafSpec : TerminalLeafSpec) (wrapperShape : WrapperShape) : ColumnEmit :=
  match leafSpec.route with
  | .nested _ => .wholeColumn (buildNestedEncoder wrapperShape columnAccess)
  | .primitive leaf => match buildEncoderWithOptionReceiver leaf wrapperShape columnAccess with
    | .leaf decls push series => .wholeColumn (decls ++ push ++ series)
    | .multi columnar => .wholeColumn columnar

def buildParentVecProjectionEmit (column : TupleParentVecColumn) : ColumnEmit :=
  match column.leafSpec.route with
  | .nested _ => .wholeColumn (buildProjectedVecNested column.wrapperShape columnAccess)
  | .primitive _ => .wholeColumn (buildProjectedVecPrimitive column.wrapperShape columnAccess)

def buildColumnEmit : ColumnIR → ColumnEmit
  | .field column => buildFieldColumnEmit column
  | .tupleStatic column => buildProjectedStandardEmit column.leafSpec column.wrapperShape
  | .tupleParentOption column => buildProjectedStandardEmit column.leafSpec column.wrapperShape
  | .tupleParentVec column => buildParentVecProjectionEmit column

/-! ## Impls (`schema.rs`, `trait_impl.rs`, `columnar_impl.rs`) -/

/-- `generate_for_struct` in either mode, or one literal entry. -/
def buildSchemaEntries (_column : ColumnIR) : Tokens := plain

def buildEmptySeries (_column : ColumnIR) : Tokens := plain

def uniqueNameValidation (ir : StructIR) : Tokens :=
  if needsUniqueNameValidation ir then [.validateUniqueColumnNames] else plain

/-- The bodies of `to_dataframe`, `empty_dataframe` and `schema`. -/
def generateTraitImpl (ir : StructIR) : List Tokens :=
  if ir.columns.isEmpty then [plain, plain, plain]
  else [plain, ir.columns.flatMap buildEmptySeries ++ uniqueNameValidation ir,
    ir.columns.flatMap buildSchemaEntries ++ uniqueNameValidation ir]

structure ColumnarParts where
  decls : Tokens
  pushes : Tokens
  builders : Tokens

def ColumnarParts.extend (parts : ColumnarParts) : ColumnEmit → ColumnarParts
  | .rowWise decls push builders => ⟨parts.decls ++ decls, parts.pushes ++ push, parts.builders ++ builders⟩
  | .wholeColumn builders => { parts with builders := parts.builders ++ builders }

def prepareColumnarParts (ir : StructIR) : ColumnarParts :=
  ir.columns.foldl (fun parts column => parts.extend (buildColumnEmit column)) ⟨[], [], []⟩

def columnarMethodBody (ir : StructIR) : Tokens :=
  let parts := prepareColumnarParts ir
  parts.decls ++ parts.pushes ++ parts.builders ++ uniqueNameValidation ir ++ plain

/-- The bodies of `columnar_to_dataframe` and `columnar_from_refs`. -/
def generateColumnarImpl (ir : StructIR) : List Tokens := [columnarMethodBody ir, columnarMethodBody ir]

end Tokens

/-! ## Support -/

def needsListAssembly (ir : StructIR) : Bool := ir.columns.any fun column => decide (0 < column.vecDepth)

def TerminalLeafRoute.isNested : TerminalLeafRoute → Bool
  | nested _ => true
  | primitive _ => false

def needsNestedValidation (ir : StructIR) : Bool := ir.columns.any fun column => column.leafSpec.route.isNested

/-- The helpers that are defined, each with its body. -/
def generateSupport (ir : StructIR) : List (Helper × Tokens) :=
  (if needsListAssembly ir then [(.listAssembly, Tokens.plain), (.assembleHelper, [.listAssembly])] else []) ++
    (if needsNestedValidation ir then [(.validateNestedFrame, Tokens.plain), (.validateNestedColumnDtype, Tokens.plain)] else []) ++
    (if needsUniqueNameValidation ir then [(.validateUniqueColumnNames, Tokens.plain)] else [])

structure Expansion where
  support : List (Helper × Tokens)
  impls : List Tokens

def generateCode (ir : StructIR) : Expansion :=
  ⟨generateSupport ir, Tokens.generateTraitImpl ir ++ Tokens.generateColumnarImpl ir⟩

namespace Expansion

def defined (e : Expansion) : List Helper := e.support.map Prod.fst

/-- A helper the impls use: one of them names it, or a helper they use does. -/
inductive Uses (e : Expansion) : Helper → Prop
  | impl {h : Helper} {b : Tokens} (hbody : b ∈ e.impls) (hmem : h ∈ b) : Uses e h
  | helper {g h : Helper} {b : Tokens} (hg : Uses e g) (hbody : (g, b) ∈ e.support) (hmem : h ∈ b) : Uses e h

end Expansion

end DfDerive
