/-
  DfDerive.Ir.Columns — the columns of a struct (`ir/columns.rs`, `ir/names.rs`, `ir/structs.rs`).

  A column reads a field, or projects an element out of a tuple field. The projected kinds
  differ in what lies above the tuple: nothing, `Option`s, or `Vec` layers.
-/

import DfDerive.Ir.Leaf

namespace DfDerive

inductive NestedNamePolicy where
  | field
  | flatten
  | prefixed (name : String)
  deriving DecidableEq, Repr

def NestedNamePolicy.requiresUniqueNameValidation : NestedNamePolicy → Bool
  | field => false
  | flatten | prefixed _ => true

/-- A raw identifier loses its `r#`. -/
def columnNameForIdent (ident : String) : String :=
  match ident.toList with
  | 'r' :: '#' :: name => String.ofList name
  | _ => ident

structure FieldSource where
  name : String
  /-- The index of a tuple struct's field. -/
  fieldIndex : Option Nat
  outerSmartPtrDepth : Nat
  deriving DecidableEq, Repr

structure TupleProjectionStep where
  index : Nat
  outerSmartPtrDepth : Nat
  deriving DecidableEq, Repr

abbrev TupleProjectionPath : Type := NonEmpty TupleProjectionStep

structure ColumnCommon where
  name : String
  leafSpec : TerminalLeafSpec
  nestedNamePolicy : NestedNamePolicy

structure FieldColumn extends ColumnCommon where
  source : FieldSource
  wrapperShape : WrapperShape

structure TupleStaticColumn extends ColumnCommon where
  root : FieldSource
  path : TupleProjectionPath
  wrapperShape : WrapperShape

structure TupleParentOptionColumn extends ColumnCommon where
  root : FieldSource
  path : TupleProjectionPath
  parentAccess : AccessChain
  wrapperShape : WrapperShape

structure TupleParentVecColumn extends ColumnCommon where
  root : FieldSource
  terminalStep : TupleProjectionStep
  projectionLayer : Nat
  parentInnerAccess : AccessChain
  wrapperShape : VecLayers

inductive ColumnIR where
  | field (column : FieldColumn)
  | tupleStatic (column : TupleStaticColumn)
  | tupleParentOption (column : TupleParentOptionColumn)
  | tupleParentVec (column : TupleParentVecColumn)

namespace ColumnIR

def common : ColumnIR → ColumnCommon
  | field c => c.toColumnCommon
  | tupleStatic c => c.toColumnCommon
  | tupleParentOption c => c.toColumnCommon
  | tupleParentVec c => c.toColumnCommon

def name (c : ColumnIR) : String := c.common.name

def leafSpec (c : ColumnIR) : TerminalLeafSpec := c.common.leafSpec

def nestedNamePolicy (c : ColumnIR) : NestedNamePolicy := c.common.nestedNamePolicy

def shape : ColumnIR → WrapperShape
  | field c => c.wrapperShape
  | tupleStatic c => c.wrapperShape
  | tupleParentOption c => c.wrapperShape
  | tupleParentVec c => .vec c.wrapperShape

def vecDepth : ColumnIR → Nat
  | field c => c.wrapperShape.vecDepth
  | tupleStatic c => c.wrapperShape.vecDepth
  | tupleParentOption c => c.wrapperShape.vecDepth
  | tupleParentVec c => c.wrapperShape.depth

end ColumnIR

structure StructIR where
  name : String
  columns : List ColumnIR

structure FieldIR where
  name : String
  fieldIndex : Option Nat
  leafSpec : LeafSpec
  wrapperShape : WrapperShape
  outerSmartPtrDepth : Nat
  nestedNamePolicy : NestedNamePolicy

end DfDerive
