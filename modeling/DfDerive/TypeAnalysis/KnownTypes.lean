/-
  DfDerive.TypeAnalysis.KnownTypes — paths recognized as column types (`type_analysis/known_types.rs`).

  A known type is told by its path alone, in the order the checks are made: durations and
  date-times first, then numbers, `bool`, strings, decimals and the naive chrono types.
-/

import DfDerive.TypeAnalysis.PathMatch
import DfDerive.Ir.Leaf

namespace DfDerive

inductive KnownBase where
  | numeric (kind : NumericKind)
  | bool
  | string
  | decimal
  | stdDuration
  | chronoDuration
  | dateTimeTz
  | naiveDate
  | naiveTime
  | naiveDateTime
  deriving DecidableEq, Repr

/-- The names of `bare_numeric_kind`. -/
def numericKindOf : String → Option NumericKind
  | "f64" => some .f64
  | "f32" => some .f32
  | "i8" => some .i8
  | "u8" => some .u8
  | "i16" => some .i16
  | "u16" => some .u16
  | "i64" => some .i64
  | "i128" => some .i128
  | "isize" => some .isize
  | "u64" => some .u64
  | "u128" => some .u128
  | "usize" => some .usize
  | "u32" => some .u32
  | "i32" => some .i32
  | _ => none

/-- The names of `nonzero_numeric_kind`. -/
def nonzeroKindOf : String → Option NumericKind
  | "NonZeroI8" => some .nonZeroI8
  | "NonZeroI16" => some .nonZeroI16
  | "NonZeroI32" => some .nonZeroI32
  | "NonZeroI64" => some .nonZeroI64
  | "NonZeroI128" => some .nonZeroI128
  | "NonZeroIsize" => some .nonZeroISize
  | "NonZeroU8" => some .nonZeroU8
  | "NonZeroU16" => some .nonZeroU16
  | "NonZeroU32" => some .nonZeroU32
  | "NonZeroU64" => some .nonZeroU64
  | "NonZeroU128" => some .nonZeroU128
  | "NonZeroUsize" => some .nonZeroUSize
  | _ => none

namespace FieldType

def bareNumericKind : FieldType → Option NumericKind
  | .path none _ [.mk ident .none] => numericKindOf ident
  | _ => none

def nonzeroNumericKind (ty : FieldType) : Option NumericKind :=
  match ty with
  | .path _ _ segments =>
    match segments.getLast? with
    | some (.mk leaf .none) =>
      match nonzeroKindOf leaf with
      | some kind =>
        if ty.pathIsExactNoArgs [leaf] || ty.pathIsExactNoArgs ["std", "num", leaf] ||
            ty.pathIsExactNoArgs ["core", "num", leaf] then some kind
        else none
      | none => none
    | _ => none
  | _ => none

def isStringType (ty : FieldType) : Bool :=
  ty.pathView.any fun path =>
    path.exactNoArgs ["String"] || path.exactNoArgs ["std", "string", "String"] ||
      path.exactNoArgs ["alloc", "string", "String"]

def isDecimalType (ty : FieldType) : Bool :=
  ty.pathView.any fun path => path.exactNoArgs ["Decimal"] || path.exactNoArgs ["rust_decimal", "Decimal"]

def isChronoNoArgsType (ty : FieldType) (leaf : String) : Bool :=
  ty.pathView.any fun path => path.exactNoArgs [leaf] || path.exactNoArgs ["chrono", leaf]

def isStdDuration (ty : FieldType) : Bool :=
  ty.pathView.any fun path =>
    path.exactNoArgs ["std", "time", "Duration"] || path.exactNoArgs ["core", "time", "Duration"]

def isChronoDuration (ty : FieldType) : Bool :=
  ty.pathView.any fun path =>
    match path.leaf with
    | some (.mk ident .none) =>
      if ident = "Duration" then path.exactNoArgs ["Duration"] || path.exactNoArgs ["chrono", "Duration"]
      else if ident = "TimeDelta" then path.exactNoArgs ["TimeDelta"] || path.exactNoArgs ["chrono", "TimeDelta"]
      else false
    | _ => false

def isTypeArgument : FieldArgument → Bool
  | .type _ => true
  | _ => false

def isChronoDatetime (ty : FieldType) : Bool :=
  if !ty.pathIsExactWithLeafArgs ["DateTime"] && !ty.pathIsExactWithLeafArgs ["chrono", "DateTime"] then false
  else
    match ty with
    | .path _ _ segments =>
      match segments.getLast? with
      | some (.mk _ (.angleBracketed args)) => args.any isTypeArgument
      | _ => false
    | _ => false

def classifyKnownBase (ty : FieldType) : Option KnownBase :=
  if ty.isStdDuration then some .stdDuration
  else if ty.isChronoDuration then some .chronoDuration
  else if ty.isChronoDatetime then some .dateTimeTz
  else match ty.bareNumericKind.orElse fun _ => ty.nonzeroNumericKind with
    | some kind => some (.numeric kind)
    | none =>
      if ty.pathIsExactNoArgs ["bool"] then some .bool
      else if ty.isStringType then some .string
      else if ty.isDecimalType then some .decimal
      else if ty.isChronoNoArgsType "NaiveDate" then some .naiveDate
      else if ty.isChronoNoArgsType "NaiveTime" then some .naiveTime
      else if ty.isChronoNoArgsType "NaiveDateTime" then some .naiveDateTime
      else none

def isBareStrType : FieldType → Bool
  | .path none _ [.mk ident arguments] => ident == "str" && arguments.isNone
  | _ => false

def isU8Type : FieldType → Bool
  | .path none _ [.mk ident arguments] => ident == "u8" && arguments.isNone
  | _ => false

end FieldType

end DfDerive
