/-
  DfDerive.Codegen.Projected — columns of tuples below `Vec` layers (`encoder/projected.rs`).

  The walkers run over the layers of the parent and of the element joined together. When
  the element has `Vec` layers of its own the projection happens between two layers of the
  walk (`projectedLayerBind`); otherwise it happens at the leaf, between the parent's inner
  chain and the element's (`projectedLeafExpr`).
-/

import DfDerive.Codegen.Nested
import DfDerive.Codegen.SourceAccess

namespace DfDerive

open Lib

def projectedParentAccess (column : TupleParentVecColumn) : Operand → Run Operand := fieldSourceAccess column.root

/-- `parent_vec_projection` -/
def parentVecProjection (column : TupleParentVecColumn) : LayerProjection where
  layer := column.projectionLayer
  path := column.terminalStep.index
  parentAccess := column.parentInnerAccess
  smartPtrDepth := column.terminalStep.outerSmartPtrDepth

/-- The element's part of the inner chain, when the projection is at the leaf. -/
def leafProjectionAccess (shape : VecLayers) (projection : LayerProjection) : Option AccessChain :=
  if projection.layer ≠ shape.depth then none
  else some ⟨shape.innerAccess.steps.drop projection.parentAccess.steps.length⟩

def applyElementAccess (projectedRef : Operand) (elementAccess : AccessChain) : Run Operand :=
  if 0 < elementAccess.optionLayers then accessChainToOptionRef (.ok projectedRef) elementAccess
  else (accessChainToRef (.ok projectedRef) elementAccess).expr

def projectedLeafExpr (projection : LayerProjection) (elementAccess : AccessChain) (raw : Operand) : Run Operand :=
  if 0 < projection.parentAccess.optionLayers then do
    let tupleRef ← accessChainToOptionRef (.ok raw) projection.parentAccess
    if 0 < elementAccess.optionLayers then
      tupleRef.andThen fun param => do
        accessChainToOptionRef (.ok (← projectFrom projection.path projection.smartPtrDepth param)) elementAccess
    else
      tupleRef.map fun param => do
        (accessChainToRef (.ok (← projectFrom projection.path projection.smartPtrDepth param)) elementAccess).expr
  else do
    let tupleRef ← (accessChainToRef (.ok raw) projection.parentAccess).expr
    applyElementAccess (← projectFrom projection.path projection.smartPtrDepth tupleRef) elementAccess

/-- The flag `projected_leaf_expr` returns with its expression. -/
def projectedLeafOptional (projection : LayerProjection) (elementAccess : AccessChain) (raw : Run Operand) : Bool :=
  if 0 < projection.parentAccess.optionLayers then true
  else if 0 < elementAccess.optionLayers then true
  else (accessChainToRef raw elementAccess).hasOption

/-- What the leaf loop binds for a raw item. -/
def projectedScanLeafExpr (shape : VecLayers) (projection : LayerProjection) : Operand → Run Operand :=
  match leafProjectionAccess shape projection with
  | some elementAccess => projectedLeafExpr projection elementAccess
  | none => pepLeafExpr shape

/-- Whether that is an `Option`. -/
def projectedScanLeafOptional (shape : VecLayers) (projection : LayerProjection) (raw : Run Operand) : Bool :=
  match leafProjectionAccess shape projection with
  | some elementAccess => projectedLeafOptional projection elementAccess raw
  | none => pepLeafOptional shape raw

def projectedScanLeafBody {σ : Type} (shape : VecLayers) (projection : LayerProjection)
    (perElemPush : σ → Operand → Run σ) : σ → Operand → Run σ :=
  leafLoop (projectedScanLeafExpr shape projection) perElemPush

def emitProjectedVecPrimitive (tr : Traits) (parentAccess : Operand → Run Operand) (shape : VecLayers)
    (projection : LayerProjection) (leaf : PrimitiveLeaf) (columnName : String) (items : List Operand) :
    Run (List Series) := do
  let pep := pepForPrimitiveLeaf tr leaf shape
  let series ← pepEmit pep (projectedScanLeafBody shape projection pep.perElemPush) (some projection) shape parentAccess
    items
  .ok [series.withName columnName]

def emitProjectedVecNested (impl : Impl) (parentAccess : Operand → Run Operand) (shape : VecLayers)
    (projection : LayerProjection) (columnName : String) (items : List Operand) : Run (List Series) :=
  nestedVecEmit ⟨impl, columnName, .field⟩ (projectedScanLeafBody shape projection (nestedPush shape.hasInnerOption))
    (some projection) shape parentAccess items

def buildProjectedVecPrimitive (tr : Traits) (column : TupleParentVecColumn) (leaf : PrimitiveLeaf) :
    List Operand → Run (List Series) :=
  emitProjectedVecPrimitive tr (projectedParentAccess column) column.wrapperShape (parentVecProjection column) leaf column.name

def buildProjectedVecNested (impl : Impl) (column : TupleParentVecColumn) : List Operand → Run (List Series) :=
  emitProjectedVecNested impl (projectedParentAccess column) column.wrapperShape (parentVecProjection column) column.name

end DfDerive
