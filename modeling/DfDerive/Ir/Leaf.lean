/-
  DfDerive.Ir.Leaf — leaf shapes (`ir/leaf.rs`, `ir/tuple.rs`).

  A leaf is what the wrappers of a field end in. Tuples are the only leaf that is not one
  column's payload: a terminal leaf is primitive, one column, or nested, the columns of
  another row type. Rust types are their paths as written.
-/

import DfDerive.Ir.Wrappers

namespace DfDerive

/-- A type path (`syn::Type`), or the identifier of a generic parameter. -/
abbrev TypePath : Type := String

inductive DateTimeUnit where
  | milliseconds
  | microseconds
  | nanoseconds
  deriving DecidableEq, Repr

inductive DurationSource where
  | std
  | chrono
  deriving DecidableEq, Repr

inductive NumericKind where
  | i8 | i16 | i32 | i64 | i128
  | u8 | u16 | u32 | u64 | u128
  | f32 | f64
  | isize | usize
  | nonZeroI8 | nonZeroI16 | nonZeroI32 | nonZeroI64 | nonZeroI128 | nonZeroISize
  | nonZeroU8 | nonZeroU16 | nonZeroU32 | nonZeroU64 | nonZeroU128 | nonZeroUSize
  deriving DecidableEq, Repr

/-- The storage lane once non-zero wrappers are erased. -/
inductive StorageNumericKind where
  | i8 | i16 | i32 | i64 | i128
  | u8 | u16 | u32 | u64 | u128
  | f32 | f64
  | isize | usize
  deriving DecidableEq, Repr

namespace NumericKind

def storageKind : NumericKind → StorageNumericKind
  | i8 | nonZeroI8 => .i8
  | i16 | nonZeroI16 => .i16
  | i32 | nonZeroI32 => .i32
  | i64 | nonZeroI64 => .i64
  | i128 | nonZeroI128 => .i128
  | u8 | nonZeroU8 => .u8
  | u16 | nonZeroU16 => .u16
  | u32 | nonZeroU32 => .u32
  | u64 | nonZeroU64 => .u64
  | u128 | nonZeroU128 => .u128
  | f32 => .f32
  | f64 => .f64
  | isize | nonZeroISize => .isize
  | usize | nonZeroUSize => .usize

def isWidened (k : NumericKind) : Bool := k.storageKind == .isize || k.storageKind == .usize

def isNonzero : NumericKind → Bool
  | nonZeroI8 | nonZeroI16 | nonZeroI32 | nonZeroI64 | nonZeroI128 | nonZeroISize => true
  | nonZeroU8 | nonZeroU16 | nonZeroU32 | nonZeroU64 | nonZeroU128 | nonZeroUSize => true
  | _ => false

end NumericKind

inductive StringyBase where
  | string
  | borrowedStr
  | cowStr
  | struct (ty : TypePath)
  | generic (ident : TypePath)
  deriving DecidableEq, Repr

def StringyBase.isString : StringyBase → Bool
  | string => true
  | _ => false

inductive DisplayBase where
  | inherent
  | struct (ty : TypePath)
  | generic (ident : TypePath)
  deriving DecidableEq, Repr

inductive DecimalBackend where
  | runtimeKnown
  | generic (ident : TypePath)
  | struct (ty : TypePath)
  deriving DecidableEq, Repr

mutual
/-- The leaf of a field after overrides. -/
inductive LeafSpec where
  | numeric (kind : NumericKind)
  | string
  | bool
  | dateTime (unit : DateTimeUnit)
  | naiveDateTime (unit : DateTimeUnit)
  | naiveDate
  | naiveTime
  | duration (unit : DateTimeUnit) (source : DurationSource)
  | decimal (precision scale : Nat) (backend : DecimalBackend)
  | asString (base : DisplayBase)
  | asStr (base : StringyBase)
  | binary
  | struct (ty : TypePath)
  | generic (ident : TypePath)
  | tuple (elements : List TupleElement)

inductive TupleElement where
  | mk (leafSpec : LeafSpec) (wrapperShape : WrapperShape) (outerSmartPtrDepth : Nat)
end

namespace TupleElement

def leafSpec : TupleElement → LeafSpec
  | mk l _ _ => l

def wrapperShape : TupleElement → WrapperShape
  | mk _ w _ => w

def outerSmartPtrDepth : TupleElement → Nat
  | mk _ _ d => d

end TupleElement

/-- A single-column leaf. -/
inductive PrimitiveLeaf where
  | numeric (kind : NumericKind)
  | string
  | bool
  | binary
  | dateTime (unit : DateTimeUnit)
  | naiveDateTime (unit : DateTimeUnit)
  | naiveDate
  | naiveTime
  | duration (unit : DateTimeUnit) (source : DurationSource)
  | decimal (precision scale : Nat)
  | asString
  | asStr (base : StringyBase)
  deriving DecidableEq, Repr

def PrimitiveLeaf.isCopy : PrimitiveLeaf → Bool
  | numeric _ | bool | naiveDate | naiveTime | naiveDateTime _ | duration _ _ => true
  | _ => false

/-- A multi-column leaf. -/
inductive NestedLeaf where
  | struct (ty : TypePath)
  | generic (ident : TypePath)
  deriving DecidableEq, Repr

def NestedLeaf.ty : NestedLeaf → TypePath
  | struct ty => ty
  | generic ident => ident

inductive TerminalLeafRoute where
  | primitive (leaf : PrimitiveLeaf)
  | nested (leaf : NestedLeaf)
  deriving DecidableEq, Repr

def LeafSpec.terminalRoute : LeafSpec → Option TerminalLeafRoute
  | numeric kind => some (.primitive (.numeric kind))
  | string => some (.primitive .string)
  | bool => some (.primitive .bool)
  | dateTime unit => some (.primitive (.dateTime unit))
  | naiveDateTime unit => some (.primitive (.naiveDateTime unit))
  | naiveDate => some (.primitive .naiveDate)
  | naiveTime => some (.primitive .naiveTime)
  | duration unit source => some (.primitive (.duration unit source))
  | decimal precision scale _ => some (.primitive (.decimal precision scale))
  | asString _ => some (.primitive .asString)
  | asStr base => some (.primitive (.asStr base))
  | binary => some (.primitive .binary)
  | struct ty => some (.nested (.struct ty))
  | generic ident => some (.nested (.generic ident))
  | tuple _ => none

/-- A leaf known to be terminal. -/
structure TerminalLeafSpec where
  leaf : LeafSpec
  terminal : leaf.terminalRoute.isSome = true

def TerminalLeafSpec.new (leaf : LeafSpec) : Option TerminalLeafSpec :=
  if h : leaf.terminalRoute.isSome = true then some ⟨leaf, h⟩ else none

def TerminalLeafSpec.route (t : TerminalLeafSpec) : TerminalLeafRoute := t.leaf.terminalRoute.get t.terminal

end DfDerive
