/-
  DfDerive.TypeAnalysis.Analyzed — what the analysis of a written type gives (`type_analysis/mod.rs`).

  The bases keep the types they were found in. Lowering looks at a type only through its
  text: `AnalyzedFieldType.recognized` is the analyzed type it works on.
-/

import DfDerive.Lower.Analysis
import DfDerive.TypeAnalysis.KnownTypes

namespace DfDerive

mutual
/-- `AnalyzedType`, with the type as written. -/
inductive AnalyzedFieldType where
  | mk (base : AnalyzedFieldBase) (wrappers : List RawWrapper) (fieldTy : FieldType) (outerSmartPtrDepth : Nat)

/-- `AnalyzedBase` -/
inductive AnalyzedFieldBase where
  | numeric (kind : NumericKind)
  | string
  | borrowedStr
  | cowStr
  | borrowedBytes
  | cowBytes
  | borrowedSlice
  | cowSlice
  | bool
  | dateTimeTz
  | naiveDate
  | naiveTime
  | naiveDateTime
  | stdDuration
  | chronoDuration
  | decimal
  | struct (ty : FieldType)
  | generic (ident : String)
  | tuple (elements : List AnalyzedFieldType)
end

def AnalyzedFieldType.base : AnalyzedFieldType → AnalyzedFieldBase
  | mk b _ _ _ => b

def AnalyzedFieldType.wrappers : AnalyzedFieldType → List RawWrapper
  | mk _ w _ _ => w

def KnownBase.intoAnalyzedBase : KnownBase → AnalyzedFieldBase
  | numeric kind => .numeric kind
  | bool => .bool
  | string => .string
  | decimal => .decimal
  | stdDuration => .stdDuration
  | chronoDuration => .chronoDuration
  | dateTimeTz => .dateTimeTz
  | naiveDate => .naiveDate
  | naiveTime => .naiveTime
  | naiveDateTime => .naiveDateTime

section
variable (text : FieldType → TypePath)

/-! ## What lowering sees of it -/

mutual
/-- `text` is the tokens of a type. -/
def AnalyzedFieldType.recognized : AnalyzedFieldType → AnalyzedType
  | .mk base wrappers _ outerSmartPtrDepth => .mk base.recognized wrappers outerSmartPtrDepth

def AnalyzedFieldBase.recognized : AnalyzedFieldBase → AnalyzedBase
  | .numeric kind => .leaf (.numeric kind)
  | .string => .leaf .string
  | .borrowedStr => .leaf .borrowedStr
  | .cowStr => .leaf .cowStr
  | .borrowedBytes => .leaf .borrowedBytes
  | .cowBytes => .leaf .cowBytes
  | .borrowedSlice => .leaf .borrowedSlice
  | .cowSlice => .leaf .cowSlice
  | .bool => .leaf .bool
  | .dateTimeTz => .leaf .dateTimeTz
  | .naiveDate => .leaf .naiveDate
  | .naiveTime => .leaf .naiveTime
  | .naiveDateTime => .leaf .naiveDateTime
  | .stdDuration => .leaf .stdDuration
  | .chronoDuration => .leaf .chronoDuration
  | .decimal => .leaf .decimal
  | .struct ty => .leaf (.struct (text ty))
  | .generic ident => .leaf (.generic ident)
  | .tuple elements => .tuple (recognizedElements elements)

def recognizedElements : List AnalyzedFieldType → List AnalyzedType
  | [] => []
  | element :: elements => element.recognized :: recognizedElements elements
end

end

end DfDerive
