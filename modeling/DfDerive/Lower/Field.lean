/-
  DfDerive.Lower.Field — fields of a struct (`lower/leaf.rs`, `lower/binary.rs`, `lower/tuple.rs`, `lower/field.rs`).

  The field's attribute chooses the leaf of its base: the default one, an override, the
  binary leaf over a byte `Vec`, or a flattened row. Tuple elements take their default leaf;
  nested tuples are accepted only when no tuple around them is wrapped.
-/

import DfDerive.Ir.Columns
import DfDerive.Lower.Analysis
import DfDerive.Lower.Wrappers

namespace DfDerive

/-! ## Attributes -/

inductive LeafOverride where
  | asStr
  | asString
  | decimal (precision scale : Nat)
  | timeUnit (unit : DateTimeUnit)
  deriving DecidableEq, Repr

inductive FieldConversion where
  | default
  | leafOverride (value : LeafOverride)
  | binary
  | flatten (name : Option String)
  deriving DecidableEq, Repr

inductive FieldDisposition where
  | skip
  | include (conversion : FieldConversion)
  deriving DecidableEq, Repr

def defaultDatetimeUnit : DateTimeUnit := .milliseconds
def defaultDurationUnit : DateTimeUnit := .nanoseconds
def defaultDecimalPrecision : Nat := 38
def defaultDecimalScale : Nat := 10

/-! ## Leaves -/

/-- `default_leaf_for_base` of a base that is not a tuple. -/
def defaultLeafForLeafBase (field : String) (canAddAsBinary : Bool) : LeafBase → Except LowerError LeafSpec
  | .numeric kind => .ok (.numeric kind)
  | .string => .ok .string
  | .borrowedStr => .ok (.asStr .borrowedStr)
  | .cowStr => .ok (.asStr .cowStr)
  | .borrowedBytes => .error (.unannotatedBorrowedBytes field canAddAsBinary)
  | .cowBytes => .error (.unannotatedCowBytes field canAddAsBinary)
  | .borrowedSlice => .error (.borrowedSlice field)
  | .cowSlice => .error (.cowSlice field)
  | .bool => .ok .bool
  | .dateTimeTz => .ok (.dateTime defaultDatetimeUnit)
  | .naiveDate => .ok .naiveDate
  | .naiveTime => .ok .naiveTime
  | .naiveDateTime => .ok (.naiveDateTime defaultDatetimeUnit)
  | .stdDuration => .ok (.duration defaultDurationUnit .std)
  | .chronoDuration => .ok (.duration defaultDurationUnit .chrono)
  | .decimal => .ok (.decimal defaultDecimalPrecision defaultDecimalScale .runtimeKnown)
  | .struct ty => .ok (.struct ty)
  | .generic ident => .ok (.generic ident)

mutual
def defaultLeafForBase (field : String) (canAddAsBinary : Bool) : AnalyzedBase → Except LowerError LeafSpec
  | .leaf base => defaultLeafForLeafBase field canAddAsBinary base
  | .tuple elements => do .ok (.tuple (← analyzedToTupleElements field elements))

def analyzedToTupleElement (field : String) : AnalyzedType → Except LowerError TupleElement
  | .mk base wrappers outerSmartPtrDepth => do
    let leafSpec ← defaultLeafForBase field false base
    .ok (.mk leafSpec (normalizeWrappers wrappers) outerSmartPtrDepth)

def analyzedToTupleElements (field : String) : List AnalyzedType → Except LowerError (List TupleElement)
  | [] => .ok []
  | element :: elements => do
    let first ← analyzedToTupleElement field element
    let rest ← analyzedToTupleElements field elements
    .ok (first :: rest)
end

def parseLeafAsStr (field : String) : AnalyzedBase → Except LowerError LeafSpec
  | .leaf .string => .ok (.asStr .string)
  | .leaf .borrowedStr => .ok (.asStr .borrowedStr)
  | .leaf .cowStr => .ok (.asStr .cowStr)
  | .leaf (.struct ty) => .ok (.asStr (.struct ty))
  | .leaf (.generic ident) => .ok (.asStr (.generic ident))
  | _ => .error (.asStrWrongBase field)

def displayBaseForAsString (field : String) : AnalyzedBase → Except LowerError DisplayBase
  | .leaf (.struct ty) => .ok (.struct ty)
  | .leaf (.generic ident) => .ok (.generic ident)
  | .leaf .stdDuration => .error (.asStringStdDuration field)
  | .leaf .borrowedBytes | .leaf .cowBytes => .error (.asStringBytes field)
  | .leaf .borrowedSlice | .leaf .cowSlice => .error (.asStringSlice field)
  | .tuple _ => .error (.asStringTuple field)
  | .leaf _ => .ok .inherent

def parseLeafAsString (field : String) (base : AnalyzedBase) : Except LowerError LeafSpec := do
  .ok (.asString (← displayBaseForAsString field base))

def parseLeafDecimal (field : String) (precision scale : Nat) : AnalyzedBase → Except LowerError LeafSpec
  | .leaf .decimal => .ok (.decimal precision scale .runtimeKnown)
  | .leaf (.struct ty) => .ok (.decimal precision scale (.struct ty))
  | .leaf (.generic ident) => .ok (.decimal precision scale (.generic ident))
  | _ => .error (.decimalWrongBase field)

def parseLeafTimeUnit (field : String) (unit : DateTimeUnit) : AnalyzedBase → Except LowerError LeafSpec
  | .leaf .dateTimeTz => .ok (.dateTime unit)
  | .leaf .naiveDateTime => .ok (.naiveDateTime unit)
  | .leaf .stdDuration => .ok (.duration unit .std)
  | .leaf .chronoDuration => .ok (.duration unit .chrono)
  | .leaf .naiveDate => .error (.timeUnitNaiveDate field)
  | .leaf .naiveTime => .error (.timeUnitNaiveTime field)
  | _ => .error (.timeUnitWrongBase field)

def LeafOverride.attr : LeafOverride → String
  | asStr => "as_str"
  | asString => "as_string"
  | decimal _ _ => "decimal(...)"
  | timeUnit _ => "time_unit = \"...\""

def rejectAttrsOnTuple (field attr : String) : AnalyzedBase → Except LowerError Unit
  | .tuple _ => .error (.unsupportedTupleAttr field attr)
  | .leaf _ => .ok ()

def parseLeafSpec (field : String) (override? : Option LeafOverride) (base : AnalyzedBase) : Except LowerError LeafSpec :=
  match override? with
  | none => defaultLeafForBase field true base
  | some value => do
    rejectAttrsOnTuple field value.attr base
    match value with
    | .asString => parseLeafAsString field base
    | .asStr => parseLeafAsStr field base
    | .decimal precision scale => parseLeafDecimal field precision scale base
    | .timeUnit unit => parseLeafTimeUnit field unit base

/-! ## Binary -/

/-- The binary leaf, and the wrappers without the `Vec` of the bytes. -/
def parseAsBinaryShape (field : String) (base : AnalyzedBase) (wrappers : List RawWrapper) :
    Except LowerError (LeafSpec × List RawWrapper) :=
  match base with
  | .leaf .cowBytes | .leaf .borrowedBytes => .ok (.binary, wrappers)
  | .leaf .borrowedSlice => .error (.binaryBorrowedSlice field)
  | .leaf .cowSlice => .error (.binaryCowSlice field)
  | .leaf (.numeric .u8) =>
    match wrappers.getLast? with
    | none => .error (.bareBinaryU8 field)
    | some .option =>
      if wrappers.length = 1 then .error (.bareBinaryU8 field) else .error (.binaryInnerOption field)
    | some .vec => .ok (.binary, wrappers.dropLast)
    | some .smartPtr => .error (.binaryWrongBase field)
  | _ => .error (.binaryWrongBase field)

/-! ## Fields -/

def hasSemanticWrappers (wrappers : List RawWrapper) : Bool := !wrappers.isEmpty

def AnalyzedBase.isTuple : AnalyzedBase → Bool
  | tuple _ => true
  | leaf _ => false

mutual
def rejectUnsupportedWrappedNestedTuples (field : String) : AnalyzedType → Except LowerError Unit
  | .mk (.leaf _) _ _ => .ok ()
  | .mk (.tuple elements) wrappers _ => rejectWrappedElements field (hasSemanticWrappers wrappers) elements

/-- The loop over the elements of a tuple, `parentWrapped` when the tuple itself is. -/
def rejectWrappedElements (field : String) (parentWrapped : Bool) : List AnalyzedType → Except LowerError Unit
  | [] => .ok ()
  | .mk base wrappers outerSmartPtrDepth :: elements =>
    if base.isTuple && (parentWrapped || hasSemanticWrappers wrappers) then .error (.unsupportedWrappedNestedTuple field)
    else do
      rejectUnsupportedWrappedNestedTuples field (.mk base wrappers outerSmartPtrDepth)
      rejectWrappedElements field parentWrapped elements
end

def flattenNamePolicy : Option String → NestedNamePolicy
  | none => .flatten
  | some name => .prefixed name

def rejectInvalidFlattenField (field : String) (base : AnalyzedBase) (wrapperShape : WrapperShape) : Except LowerError Unit :=
  match base, wrapperShape with
  | .leaf (.struct _), .leaf .bare | .leaf (.generic _), .leaf .bare => .ok ()
  | _, _ => .error (.invalidFlattenField field)

/-- A declared field: its type and what its attributes ask for. -/
structure FieldDecl where
  ty : RustType
  disposition : FieldDisposition

def lowerField (field : FieldDecl) (name : String) (fieldIndex : Option Nat) : Except LowerError (Option FieldIR) :=
  match field.disposition with
  | .skip => .ok none
  | .include conversion => do
    let analyzed ← analyzeType field.ty
    rejectUnsupportedWrappedNestedTuples name analyzed
    let normalized := normalizeWrappers analyzed.wrappers
    match conversion with
    | .flatten names =>
      rejectInvalidFlattenField name analyzed.base normalized
      let leafSpec ← parseLeafSpec name none analyzed.base
      .ok (some ⟨name, fieldIndex, leafSpec, normalized, analyzed.outerSmartPtrDepth, flattenNamePolicy names⟩)
    | .binary =>
      rejectAttrsOnTuple name "as_binary" analyzed.base
      let (leafSpec, trimmed) ← parseAsBinaryShape name analyzed.base analyzed.wrappers
      .ok (some ⟨name, fieldIndex, leafSpec, normalizeWrappers trimmed, analyzed.outerSmartPtrDepth, .field⟩)
    | .default =>
      let leafSpec ← parseLeafSpec name none analyzed.base
      .ok (some ⟨name, fieldIndex, leafSpec, normalized, analyzed.outerSmartPtrDepth, .field⟩)
    | .leafOverride value =>
      let leafSpec ← parseLeafSpec name (some value) analyzed.base
      .ok (some ⟨name, fieldIndex, leafSpec, normalized, analyzed.outerSmartPtrDepth, .field⟩)

end DfDerive
