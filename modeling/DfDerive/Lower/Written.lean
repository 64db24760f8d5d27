/-
  DfDerive.Lower.Written — fields and structs as written (`lower/field.rs`, `parser.rs`).

  The attributes of a field are read first; a skipped field is not looked at any further. The
  type is analyzed, checked for the struct itself and for wrapped nested tuples, and lowered
  as the attributes ask. The first field that fails ends the derive.
-/

import DfDerive.Attrs.Field
import DfDerive.Codegen.TypeDeps
import DfDerive.Lower.Projection
import DfDerive.Lower.Validation

namespace DfDerive

inductive FieldError where
  | attrs (e : FieldAttrError)
  | type (e : TypeError)
  | selfReference (e : SelfReference)
  | lower (e : LowerError)
  deriving DecidableEq, Repr

def FieldError.messages : FieldError → List String
  | attrs e => e.messages
  | type e => [e.message]
  | selfReference e => [e.message]
  | lower e => [e.message]

/-! ## Fields -/

structure WrittenField where
  attrs : List FieldAttribute
  ty : FieldType

/-- The part of `lower_field` that no longer looks at the type as written. -/
def lowerAnalyzed (name : String) (fieldIndex : Option Nat) (conversion : FieldConversion) (analyzed : AnalyzedType) :
    Except LowerError FieldIR := do
  rejectUnsupportedWrappedNestedTuples name analyzed
  let normalized := normalizeWrappers analyzed.wrappers
  match conversion with
  | .flatten names =>
    rejectInvalidFlattenField name analyzed.base normalized
    let leafSpec ← parseLeafSpec name none analyzed.base
    .ok ⟨name, fieldIndex, leafSpec, normalized, analyzed.outerSmartPtrDepth, flattenNamePolicy names⟩
  | .binary =>
    rejectAttrsOnTuple name "as_binary" analyzed.base
    let (leafSpec, trimmed) ← parseAsBinaryShape name analyzed.base analyzed.wrappers
    .ok ⟨name, fieldIndex, leafSpec, normalizeWrappers trimmed, analyzed.outerSmartPtrDepth, .field⟩
  | .default =>
    let leafSpec ← parseLeafSpec name none analyzed.base
    .ok ⟨name, fieldIndex, leafSpec, normalized, analyzed.outerSmartPtrDepth, .field⟩
  | .leafOverride value =>
    let leafSpec ← parseLeafSpec name (some value) analyzed.base
    .ok ⟨name, fieldIndex, leafSpec, normalized, analyzed.outerSmartPtrDepth, .field⟩

section
variable (text : FieldType → TypePath) (structName : String) (genericParams : List String)

/-- `lower_field` -/
def lowerWrittenField (field : WrittenField) (name : String) (fieldIndex : Option Nat) :
    Except FieldError (Option FieldIR) := do
  match ← (parseFieldDisposition name field.attrs).mapError .attrs with
  | .skip => .ok none
  | .include conversion => do
    let analyzed ← (field.ty.analyzeType genericParams).mapError .type
    (rejectDirectSelfReference name structName analyzed).mapError .selfReference
    .ok (some (← (lowerAnalyzed name fieldIndex conversion (analyzed.recognized text)).mapError .lower))

/-! ## Structs -/

inductive WrittenFields where
  | named (fields : List (String × WrittenField))
  | unnamed (fields : List WrittenField)
  | unit

/-- The fields by the names and positions they are lowered under. -/
def WrittenFields.entries : WrittenFields → List (WrittenField × String × Option Nat)
  | named fields => fields.map fun (name, field) => (field, name, none)
  | unnamed fields => fields.zipIdx.map fun (field, index) => (field, s!"field_{index}", some index)
  | unit => []

/-- The loop of `parse_to_ir`: skipped fields leave nothing. -/
def lowerEntries : List (WrittenField × String × Option Nat) → Except FieldError (List FieldIR)
  | [] => .ok []
  | (field, name, fieldIndex) :: entries => do
    let lowered ← lowerWrittenField text structName genericParams field name fieldIndex
    let rest ← lowerEntries entries
    .ok (lowered.toList ++ rest)

end

inductive InputData where
  | struct (fields : WrittenFields)
  | enum
  | union

/-- `syn::DeriveInput` -/
structure WrittenInput where
  attrs : List ContainerAttr
  ident : String
  generics : List GenericParam
  data : InputData

inductive InputError where
  | container (e : ContainerError)
  | enumInput
  | unionInput
  | field (e : FieldError)
  deriving DecidableEq, Repr

def InputError.messages : InputError → List String
  | container e => e.messages
  | enumInput =>
    ["df-derive cannot be derived on enums; derive `ToDataFrame` on a struct and use `#[df_derive(as_string)]` on " ++
      "enum fields"]
  | unionInput => ["df-derive cannot be derived on unions; derive `ToDataFrame` on a struct"]
  | field e => e.messages

def validateStructInput : InputData → Except InputError WrittenFields
  | .struct fields => .ok fields
  | .enum => .error .enumInput
  | .union => .error .unionInput

/-- The generic parameters of `parse_to_ir`: types only. -/
def WrittenInput.genericParams (input : WrittenInput) : List String := (GenericContext.new input.generics).typeParams

def parseWrittenToIr (text : FieldType → TypePath) (input : WrittenInput) : Except InputError StructIR := do
  let fields ← validateStructInput input.data
  let lowered ← (lowerEntries text input.ident input.genericParams fields.entries).mapError .field
  .ok ⟨input.ident, projectFieldsToColumns lowered⟩

end DfDerive
