/-
  DfDerive.Codegen.ColumnEmit — the encoder of each kind of column (`codegen/column_emit.rs`).

  A row-wise column is filled by pushes in the row loop that all such columns share; any
  other column builds its series in a block of its own. Columns projected out of a tuple
  field always do the latter, with a loop of their own where the encoder is a row-wise arm.
-/

import DfDerive.Codegen.Leaf
import DfDerive.Codegen.Projected

namespace DfDerive

open Lib

/-- What the generated code of a struct calls: the user's trait methods and the
    implementations of the nested types, by their paths. -/
structure Env where
  traits : Traits
  impl : TypePath → Impl

inductive ColumnEmit where
  | rowWise (arm : LeafArm)
  | wholeColumn (builders : List Operand → Run (List Series))

namespace ColumnEmit

/-- The locals declared before the row loop, for `n` rows. -/
def decls (n : Nat) : ColumnEmit → LeafBufs
  | rowWise arm => arm.decls n
  | wholeColumn _ => .new

/-- The column's part of the row loop. -/
def push : ColumnEmit → LeafBufs → Operand → Run LeafBufs
  | rowWise arm, s, it => arm.push s it
  | wholeColumn _, s, _ => .ok s

def builders (items : List Operand) : ColumnEmit → LeafBufs → Run (List Series)
  | rowWise arm, s => do .ok [← arm.series s]
  | wholeColumn build, _ => build items

end ColumnEmit

def Encoder.emit : Encoder → ColumnEmit
  | .leaf arm => .rowWise arm
  | .multi columnar => .wholeColumn columnar

def buildNestedEmit (env : Env) (column : FieldColumn) (nested : NestedLeaf) : ColumnEmit :=
  .wholeColumn (buildNestedEncoder column.wrapperShape ⟨env.impl nested.ty, column.name, column.nestedNamePolicy⟩
    (fieldColumnAccess column))

def buildPrimitiveEmit (env : Env) (column : FieldColumn) (leaf : PrimitiveLeaf) : ColumnEmit :=
  (buildEncoder ⟨fieldColumnAccess column, column.name, env.traits⟩ leaf column.wrapperShape).emit

def buildFieldColumnEmit (env : Env) (column : FieldColumn) : ColumnEmit :=
  match column.leafSpec.route with
  | .nested nested => buildNestedEmit env column nested
  | .primitive leaf => buildPrimitiveEmit env column leaf

def buildNestedEmitWithAccess (env : Env) (name : String) (wrapperShape : WrapperShape) (nested : NestedLeaf)
    (access : Operand → Run Operand) : ColumnEmit :=
  .wholeColumn (buildNestedEncoder wrapperShape ⟨env.impl nested.ty, name, .field⟩ access)

/-- A row-wise arm in a block of its own: `for it in items { push }`, then the named series. -/
def LeafArm.runBlock (arm : LeafArm) (name : String) (items : List Operand) : Run (List Series) := do
  let s ← items.foldlM arm.push (arm.decls items.length)
  let series ← arm.series s
  .ok [series.withName name]

def buildProjectedStandardEmit (env : Env) (name : String) (leafSpec : TerminalLeafSpec) (wrapperShape : WrapperShape)
    (access : Operand → Run Operand) (optionReceiver : Option PrimitiveExprReceiver) : ColumnEmit :=
  match leafSpec.route with
  | .nested nested => buildNestedEmitWithAccess env name wrapperShape nested access
  | .primitive leaf =>
    match buildEncoderWithOptionReceiver ⟨access, name, env.traits⟩ leaf wrapperShape optionReceiver with
    | .leaf arm => .wholeColumn (arm.runBlock name)
    | .multi columnar => .wholeColumn columnar

def buildTupleStaticEmit (env : Env) (column : TupleStaticColumn) : ColumnEmit :=
  buildProjectedStandardEmit env column.name column.leafSpec column.wrapperShape (tupleStaticAccess column) none

def buildTupleParentOptionEmit (env : Env) (column : TupleParentOptionColumn) : ColumnEmit :=
  buildProjectedStandardEmit env column.name column.leafSpec column.wrapperShape (tupleParentOptionAccess column)
    (tupleParentOptionSomeReceiver column)

def buildParentVecProjectionEmit (env : Env) (column : TupleParentVecColumn) : ColumnEmit :=
  match column.leafSpec.route with
  | .nested nested => .wholeColumn (buildProjectedVecNested (env.impl nested.ty) column)
  | .primitive leaf => .wholeColumn (buildProjectedVecPrimitive env.traits column leaf)

def buildColumnEmit (env : Env) : ColumnIR → ColumnEmit
  | .field column => buildFieldColumnEmit env column
  | .tupleStatic column => buildTupleStaticEmit env column
  | .tupleParentOption column => buildTupleParentOptionEmit env column
  | .tupleParentVec column => buildParentVecProjectionEmit env column

end DfDerive
