/-
  DfDerive.Codegen.TypeRegistry — leaf dtypes and scalar transforms (`codegen/type_registry`).

  `PrimitiveLeaf.dtype` is the logical dtype of a leaf, `numericStoredValue` and
  `mapPrimitiveExpr` the expressions that turn a leaf value into what its buffer stores.
  `Traits` holds what the generated code calls outside: `Display`, `AsRef<str>` and
  `Decimal128Encode` on types it does not know, and the conversions of `chrono`.
-/

import DfDerive.Core.Decimal
import DfDerive.Ir.Leaf
import DfDerive.Runtime.Value

namespace DfDerive

/-- The conversions of `chrono`. An instant is given by its seconds from the epoch, a
    `TimeDelta` by its whole seconds, rounded down, and both by the nanoseconds after them. -/
structure Chrono where
  timestampMillis : Int → Nat → Int
  timestampMicros : Int → Nat → Int
  timestampNanosOpt : Int → Nat → Option Int
  numMilliseconds : Int → Nat → Int
  numMicroseconds : Int → Nat → Option Int
  numNanoseconds : Int → Nat → Option Int

/-- Trait methods of the user's own types, and `chrono`. -/
structure Traits where
  /-- `Display::fmt`: the text written, and whether it reported success. -/
  display : Value → String × Bool
  /-- `AsRef<str>::as_ref` -/
  asRef : Value → String
  /-- `Decimal128Encode::try_to_i128_mantissa` of a custom backend. -/
  mantissa : Value → Nat → Option Int
  chrono : Chrono

/-! ## Dtypes -/

def timeUnitTokens : DateTimeUnit → TimeUnit
  | .milliseconds => .milliseconds
  | .microseconds => .microseconds
  | .nanoseconds => .nanoseconds

structure NumericInfo where
  /-- The Arrow dtype of the native buffer. -/
  native : ArrowDataType
  dtype : DataType
  /-- Whether a platform-sized integer is widened into the buffer. -/
  widenFrom : Bool
  deriving DecidableEq, Repr

def numericInfoFor (kind : NumericKind) : NumericInfo :=
  match kind.storageKind with
  | .i8 => ⟨.int8, .int8, false⟩
  | .i16 => ⟨.int16, .int16, false⟩
  | .i32 => ⟨.int32, .int32, false⟩
  | .i64 => ⟨.int64, .int64, false⟩
  | .i128 => ⟨.int128, .int128, false⟩
  | .u8 => ⟨.uint8, .uint8, false⟩
  | .u16 => ⟨.uint16, .uint16, false⟩
  | .u32 => ⟨.uint32, .uint32, false⟩
  | .u64 => ⟨.uint64, .uint64, false⟩
  | .u128 => ⟨.uint128, .uint128, false⟩
  | .f32 => ⟨.float32, .float32, false⟩
  | .f64 => ⟨.float64, .float64, false⟩
  | .isize => ⟨.int64, .int64, true⟩
  | .usize => ⟨.uint64, .uint64, true⟩

theorem numericInfoFor_native (kind : NumericKind) :
    (numericInfoFor kind).native = (numericInfoFor kind).dtype.physicalArrow := by
  unfold numericInfoFor
  split <;> rfl

inductive LogicalPrimitive where
  | numeric (kind : NumericKind)
  | string
  | bool
  | binary
  | dateTime (unit : DateTimeUnit)
  | naiveDateTime (unit : DateTimeUnit)
  | naiveDate
  | naiveTime
  | duration (unit : DateTimeUnit)
  | decimal (precision scale : Nat)
  deriving DecidableEq, Repr

def LogicalPrimitive.dtype : LogicalPrimitive → DataType
  | numeric kind => (numericInfoFor kind).dtype
  | string => .string
  | bool => .boolean
  | binary => .binary
  | dateTime unit | naiveDateTime unit => .datetime (timeUnitTokens unit)
  | naiveDate => .date
  | naiveTime => .time
  | duration unit => .duration (timeUnitTokens unit)
  | decimal precision scale => .decimal precision scale

def PrimitiveLeaf.logical : PrimitiveLeaf → LogicalPrimitive
  | numeric kind => .numeric kind
  | string | asString | asStr _ => .string
  | bool => .bool
  | binary => .binary
  | dateTime unit => .dateTime unit
  | naiveDateTime unit => .naiveDateTime unit
  | naiveDate => .naiveDate
  | naiveTime => .naiveTime
  | duration unit _ => .duration unit
  | decimal precision scale => .decimal precision scale

def PrimitiveLeaf.dtype (leaf : PrimitiveLeaf) : DataType := leaf.logical.dtype

/-! ## Stored values -/

/-- A native buffer value. -/
def nativeValue : Value → Run Prim
  | .scalar (.int n) => .ok (.int n)
  | .scalar (.float b) => .ok (.float b)
  | _ => .error .illTyped

/-- `value.get()` of a `NonZero*`. -/
def nonZeroGet : Value → Run Value
  | .scalar (.int n) => if n = 0 then .error .illTyped else .ok (.scalar (.int n))
  | _ => .error .illTyped

/-- `numeric_stored_value`; the cast to `i64` or `u64` of a platform-sized integer keeps
    its value on every target up to 64 bits. -/
def numericStoredValue (kind : NumericKind) (sourceValue : Value) : Run Prim := do
  let value ← if kind.isNonzero then nonZeroGet sourceValue else .ok sourceValue
  nativeValue value

inductive ScalarTransform where
  | dateTime (unit : DateTimeUnit)
  | naiveDateTime (unit : DateTimeUnit)
  | naiveDate
  | naiveTime
  | duration (unit : DateTimeUnit) (source : DurationSource)
  | decimal (precision scale : Nat)
  deriving DecidableEq, Repr

namespace ScalarTransform

def logical : ScalarTransform → LogicalPrimitive
  | dateTime unit => .dateTime unit
  | naiveDateTime unit => .naiveDateTime unit
  | naiveDate => .naiveDate
  | naiveTime => .naiveTime
  | duration unit _ => .duration unit
  | decimal precision scale => .decimal precision scale

def dtype (t : ScalarTransform) : DataType := t.logical.dtype

end ScalarTransform

inductive PrimitiveExprReceiver where
  | place
  | ref
  | refRef
  deriving DecidableEq, Repr

def PrimitiveExprReceiver.decimalReceiver (r : PrimitiveExprReceiver) (var : Operand) : Run Operand :=
  match r with
  | place => .ok (.ref var)
  | ref => .ok var
  | refRef => var.deref

/-! ### `std::time` -/

/-- `i64::try_from` -/
def checkedI64 (n : Int) : Option Int := if -(2 ^ 63) ≤ n ∧ n < 2 ^ 63 then some n else none

/-- `Duration::as_nanos`, `as_micros`, `as_millis` of `std::time::Duration`. -/
def stdDurationIn (secs : Int) (nanos : Nat) : DateTimeUnit → Int
  | .nanoseconds => secs * 1000000000 + nanos
  | .microseconds => secs * 1000000 + (nanos / 1000 : Nat)
  | .milliseconds => secs * 1000 + (nanos / 1000000 : Nat)

/-! ### `map_primitive_expr` -/

def orErr (e : DeriveError) : Option Int → Run Prim
  | some n => .ok (.int n)
  | none => Run.derive e

def mapDateTime (chrono : Chrono) (unit : DateTimeUnit) (nanosError : DeriveError) : Value → Run Prim
  | .scalar (.timestamp secs nanos) =>
    match unit with
    | .milliseconds => .ok (.int (chrono.timestampMillis secs nanos))
    | .microseconds => .ok (.int (chrono.timestampMicros secs nanos))
    | .nanoseconds => orErr nanosError (chrono.timestampNanosOpt secs nanos)
  | _ => .error .illTyped

def mapDuration (chrono : Chrono) (unit : DateTimeUnit) (source : DurationSource) : Value → Run Prim
  | .scalar (.duration secs nanos) =>
    match source with
    | .std => orErr (.stdDuration (timeUnitTokens unit)) (checkedI64 (stdDurationIn secs nanos unit))
    | .chrono =>
      match unit with
      | .nanoseconds => orErr (.chronoDuration .nanoseconds) (chrono.numNanoseconds secs nanos)
      | .microseconds => orErr (.chronoDuration .microseconds) (chrono.numMicroseconds secs nanos)
      | .milliseconds => .ok (.int (chrono.numMilliseconds secs nanos))
  | _ => .error .illTyped

/-- `Decimal128Encode::try_to_i128_mantissa` on the selected trait path. -/
def tryToI128Mantissa (tr : Traits) : Value → Nat → Option Int
  | .scalar (.decimal mantissa scale), target => rustDecimalMantissa mantissa scale target
  | v, target => tr.mantissa v target

def mapDecimal (tr : Traits) (precision scale : Nat) (v : Value) : Run Prim :=
  match tryToI128Mantissa tr v scale with
  | some m => if 10 ^ precision ≤ m.natAbs then Run.derive (.decimalPrecision m precision scale) else .ok (.int m)
  | none => Run.derive (.decimalRescale scale)

/-- The days from the common era to 1970-01-01. -/
def unixEpochDays : Int := 719163

def mapPrimitiveExpr (tr : Traits) (var : Operand) (receiver : PrimitiveExprReceiver) : ScalarTransform → Run Prim
  | .dateTime unit => do mapDateTime tr.chrono unit .dateTimeNanos (← var.value)
  | .naiveDateTime unit => do mapDateTime tr.chrono unit .naiveDateTimeNanos (← var.value)
  | .naiveDate => do
    match ← var.value with
    | .scalar (.date daysFromCe) => .ok (.int (daysFromCe - unixEpochDays))
    | _ => .error .illTyped
  | .naiveTime => do
    match ← var.value with
    | .scalar (.time secs nanos) => .ok (.int (secs * 1000000000 + nanos))
    | _ => .error .illTyped
  | .duration unit source => do mapDuration tr.chrono unit source (← var.value)
  | .decimal precision scale => do mapDecimal tr precision scale (← (← receiver.decimalReceiver var).value)

end DfDerive
