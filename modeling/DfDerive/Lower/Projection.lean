/-
  DfDerive.Lower.Projection — the columns of a struct (`lower/projection.rs`, `parser.rs`).

  A field gives one column, or one for every leaf of its tuple, in depth-first order. The
  elements of a nested tuple are projected through the tuples around it, none of which has
  wrappers.
-/

import DfDerive.Lower.Compose
import DfDerive.Lower.Field

namespace DfDerive

/-- The columns of a leaf: a leaf that is not a tuple is terminal. -/
def terminalLeaf (leafSpec : LeafSpec) (column : TerminalLeafSpec → ColumnIR) : List ColumnIR :=
  (TerminalLeafSpec.new leafSpec).toList.map column

/-- The column of one element that is not a tuple. -/
def projectTupleElement (root : FieldSource) (name : String) (parentWrapper : WrapperShape)
    (pathPrefix : List TupleProjectionStep) (step : TupleProjectionStep) (elementShape : WrapperShape)
    (leafSpec : TerminalLeafSpec) : ColumnIR :=
  let common : ColumnCommon := ⟨name, leafSpec, .field⟩
  let path : TupleProjectionPath := match pathPrefix with
    | [] => ⟨step, []⟩
    | first :: rest => ⟨first, rest ++ [step]⟩
  match composeParentWithElement parentWrapper elementShape with
  | .static wrapperShape => .tupleStatic ⟨common, root, path, wrapperShape⟩
  | .parentOption wrapperShape parentAccess => .tupleParentOption ⟨common, root, path, parentAccess, wrapperShape⟩
  | .parentVec wrapperShape projectionLayer parentInnerAccess =>
    .tupleParentVec ⟨common, root, step, projectionLayer, parentInnerAccess, wrapperShape⟩

def fieldName (column : String) (index : Nat) : String := s!"{column}.field_{index}"

mutual
/-- The elements from the position `index` on. -/
def projectTupleElements (root : FieldSource) (column : String) (parentWrapper : WrapperShape)
    (pathPrefix : List TupleProjectionStep) (index : Nat) : List TupleElement → List ColumnIR
  | [] => []
  | element :: elements =>
    projectElement root (fieldName column index) parentWrapper pathPrefix index element ++
      projectTupleElements root column parentWrapper pathPrefix (index + 1) elements

def projectElement (root : FieldSource) (name : String) (parentWrapper : WrapperShape)
    (pathPrefix : List TupleProjectionStep) (index : Nat) : TupleElement → List ColumnIR
  | .mk leafSpec wrapperShape outerSmartPtrDepth =>
    projectElementLeaf root name parentWrapper pathPrefix ⟨index, outerSmartPtrDepth⟩ wrapperShape leafSpec

def projectElementLeaf (root : FieldSource) (name : String) (parentWrapper : WrapperShape)
    (pathPrefix : List TupleProjectionStep) (step : TupleProjectionStep) (elementShape : WrapperShape) :
    LeafSpec → List ColumnIR
  | .tuple inner => projectTupleElements root name (.leaf .bare) (pathPrefix ++ [step]) 0 inner
  | leafSpec => terminalLeaf leafSpec (projectTupleElement root name parentWrapper pathPrefix step elementShape)
end

def FieldIR.root (field : FieldIR) : FieldSource := ⟨field.name, field.fieldIndex, field.outerSmartPtrDepth⟩

def projectField (field : FieldIR) : List ColumnIR :=
  let name := columnNameForIdent field.name
  match field.leafSpec with
  | .tuple elements => projectTupleElements field.root name field.wrapperShape [] 0 elements
  | leafSpec =>
    terminalLeaf leafSpec fun leaf => .field ⟨⟨name, leaf, field.nestedNamePolicy⟩, field.root, field.wrapperShape⟩

def projectFieldsToColumns (fields : List FieldIR) : List ColumnIR := fields.flatMap projectField

/-! ## Structs -/

inductive Fields where
  | named (fields : List (String × FieldDecl))
  | unnamed (fields : List FieldDecl)
  | unit

structure DeriveInput where
  ident : String
  fields : Fields

/-- The fields of a named struct, in order; skipped fields leave nothing. -/
def lowerNamedFields : List (String × FieldDecl) → Except LowerError (List FieldIR)
  | [] => .ok []
  | (name, field) :: fields => do
    let lowered ← lowerField field name none
    let rest ← lowerNamedFields fields
    .ok (lowered.toList ++ rest)

/-- The fields of a tuple struct from the position `index` on. -/
def lowerUnnamedFields (index : Nat) : List FieldDecl → Except LowerError (List FieldIR)
  | [] => .ok []
  | field :: fields => do
    let lowered ← lowerField field s!"field_{index}" (some index)
    let rest ← lowerUnnamedFields (index + 1) fields
    .ok (lowered.toList ++ rest)

def lowerFields : Fields → Except LowerError (List FieldIR)
  | .named fields => lowerNamedFields fields
  | .unnamed fields => lowerUnnamedFields 0 fields
  | .unit => .ok []

def parseToIr (input : DeriveInput) : Except LowerError StructIR := do
  .ok ⟨input.ident, projectFieldsToColumns (← lowerFields input.fields)⟩

end DfDerive
