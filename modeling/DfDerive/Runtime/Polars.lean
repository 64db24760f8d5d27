/-
  DfDerive.Runtime.Polars — the part of Polars and Arrow the generated code uses.

  A `Series` is a name, a logical dtype and one physical array whose Arrow dtype is the
  physical one of the logical dtype; a `DataFrame` is a list of series of one height with
  distinct names. Polars' checked failures are `Fault.err`, its assertions are `Fault.panic`.

  What is assumed of Polars and Arrow, as they document it:
  - every safe constructor keeps the facts above, and the one unsafe constructor called,
    `fromChunksAndDtypeUnchecked`, is undefined behaviour on a physical mismatch;
  - `flatArrayNew` and `largeListNew` assert the lengths of their parts and the dtype of the
    child, and `offsetsTryFrom` refuses offsets that are empty or decrease;
  - a bitmap without an unset bit freezes to none (`bitmapIntoOption`), and `bitmapSet` asserts
    its index;
  - `take` checks its bounds, a null index gathers a null, and a gather past the end is an error
    of its own (`Fault.outOfBounds`);
  - `cast` of an integer series of the same width keeps its cells, but for a time of day outside
    the day, which becomes null (`castCell`);
  - `newInferHeight` refuses columns of several heights and a name that occurs twice;
  - `column` finds by name, and `dropInPlace` keeps the height of the frame.
-/

import Mathlib.Algebra.Order.Ring.Int
import DfDerive.Lib.Runs
import DfDerive.Lib.Ragged
import DfDerive.Lib.Gather

namespace DfDerive

open Lib

/-! ## Data types -/

inductive TimeUnit where
  | milliseconds
  | microseconds
  | nanoseconds
  deriving DecidableEq, Repr

inductive ArrowDataType where
  | int8 | int16 | int32 | int64 | int128
  | uint8 | uint16 | uint32 | uint64 | uint128
  | float32 | float64
  | boolean | utf8View | binaryView | null
  | largeList (item : ArrowDataType)
  | foreign (tag : String)
  deriving DecidableEq, Repr

/-- Polars' logical dtypes. `foreign` is any dtype the derive never emits, with the Arrow
    dtype of its physical chunks. -/
inductive DataType where
  | int8 | int16 | int32 | int64 | int128
  | uint8 | uint16 | uint32 | uint64 | uint128
  | float32 | float64
  | boolean | string | binary | null
  | date | time
  | datetime (unit : TimeUnit)
  | duration (unit : TimeUnit)
  | decimal (precision scale : Nat)
  | list (inner : DataType)
  | foreign (tag : String) (physical : ArrowDataType)
  deriving DecidableEq, Repr

/-- `dtype.to_physical().to_arrow(CompatLevel::newest())`. -/
def DataType.physicalArrow : DataType → ArrowDataType
  | int8 => .int8 | int16 => .int16 | int32 => .int32 | int64 => .int64 | int128 => .int128
  | uint8 => .uint8 | uint16 => .uint16 | uint32 => .uint32 | uint64 => .uint64 | uint128 => .uint128
  | float32 => .float32 | float64 => .float64
  | boolean => .boolean | string => .utf8View | binary => .binaryView | null => .null
  | date => .int32 | time => .int64
  | datetime _ => .int64
  | duration _ => .int64
  | decimal _ _ => .int128
  | list inner => .largeList inner.physicalArrow
  | foreign _ physical => physical

/-! ## Errors -/

/-- The errors the generated code builds itself, one constructor for each `polars_err!`. -/
inductive DeriveError where
  | idxSize (position : Nat)
  | listOffset (offset : Nat)
  | listAssemblyDtype (actual : ArrowDataType) (logical : DataType)
  | nestedHeight (typeName : String) (actual expected : Nat)
  | nestedColumnDtype (column : String) (actual declared : DataType)
  | duplicateColumn (name typeName : String)
  | displayFailed
  | decimalPrecision (mantissa : Int) (precision scale : Nat)
  | decimalRescale (target : Nat)
  | dateTimeNanos
  | naiveDateTimeNanos
  | stdDuration (unit : TimeUnit)
  | chronoDuration (unit : TimeUnit)
  deriving DecidableEq, Repr

def TimeUnit.short : TimeUnit → String
  | milliseconds => "ms"
  | microseconds => "us"
  | nanoseconds => "ns"

def DeriveError.message : DeriveError → String
  | idxSize n => s!"df-derive: nested inner-option position {n} exceeds IdxSize range"
  | listOffset n => s!"df-derive: list offset {n} exceeds i64 range"
  | listAssemblyDtype a l =>
    s!"df-derive: list assembly dtype mismatch: actual Arrow dtype {repr a}, logical dtype {repr l}"
  | nestedHeight ty a e =>
    s!"df-derive: nested Columnar::columnar_from_refs for {ty} returned height {a}, expected {e}"
  | nestedColumnDtype c a d =>
    s!"df-derive: nested column `{c}` dtype mismatch: actual dtype {repr a}, declared schema dtype {repr d}"
  | duplicateColumn n ty => s!"df-derive: duplicate column `{n}` while building flattened DataFrame output for {ty}"
  | displayFailed => "df-derive: as_string Display formatting failed: an error occurred when formatting an argument"
  | decimalPrecision m p s =>
    s!"df-derive: decimal mantissa {m} exceeds declared precision {p} for Decimal({p}, {s})"
  | decimalRescale t => s!"df-derive: decimal mantissa rescale to scale {t} failed (overflow or precision loss)"
  | dateTimeNanos =>
    "df-derive: DateTime<Tz> value is out of range for nanosecond timestamps (chrono supports approximately 1677..2262)"
  | naiveDateTimeNanos =>
    "df-derive: NaiveDateTime value is out of range for nanosecond timestamps (chrono supports approximately 1677..2262)"
  | stdDuration u => s!"df-derive: std::time::Duration value out of i64 {u.short} range"
  | chronoDuration u => s!"df-derive: chrono::Duration value out of i64 {u.short} range"

inductive PolarsError where
  /-- `ComputeError` built by the generated code. -/
  | compute (e : DeriveError)
  | columnNotFound (name : String)
  | duplicate (name : String)
  | shapeMismatch
  | invalidOffsets
  /-- Any error of a hand-written implementation. -/
  | other (message : String)
  deriving DecidableEq, Repr

inductive Fault where
  | err (e : PolarsError)
  | panic (message : String)
  | undefinedBehaviour
  | outOfBounds
  /-- An expression applied to a value it does not fit; rustc excludes it. -/
  | illTyped
  deriving DecidableEq, Repr

/-- The failures a conversion may end in: an `Err` returned to the caller. -/
def Fault.Reported : Fault → Prop
  | .err _ => True
  | _ => False

/-- The errors that are about the values of a batch, its size or the names of its columns.
    The others are the run-time checks on list arrays and nested frames. -/
def DeriveError.FromData : DeriveError → Prop
  | listAssemblyDtype _ _ | nestedHeight _ _ _ | nestedColumnDtype _ _ _ => False
  | _ => True

/-- An `Err` the generated code builds, other than by a failed check. -/
def Fault.FromData : Fault → Prop
  | .err (.compute e) => e.FromData
  | _ => False

abbrev Run (α : Type) : Type := Except Fault α

/-- `Runs` with the errors about the data as the admitted ones. -/
abbrev Run.Spec {α : Type} (r : Run α) (G : Prop) (P : α → Prop) : Prop := Runs Fault.FromData r G P

def Run.derive {α : Type} (e : DeriveError) : Run α := .error (.err (.compute e))

@[simp] theorem Fault.reported_err (e : PolarsError) : (Fault.err e).Reported := trivial

theorem Fault.FromData.reported : ∀ {f : Fault}, f.FromData → f.Reported
  | .err _, _ => trivial

/-! ## Arrays -/

/-- A physical value of a leaf array; a float is its bit pattern. -/
inductive Prim where
  | int (n : Int)
  | float (bits : Nat)
  | bool (b : Bool)
  | str (s : String)
  | bytes (b : List UInt8)
  deriving DecidableEq, Repr

abbrev Cell : Type := Nested Prim

/-- Arrow arrays: a leaf buffer with its validity, a `LargeListArray`, or the chunk of a
    series built by Polars, known by its dtype and cells. -/
inductive ArrowArray where
  | flat (dtype : ArrowDataType) (values : List Prim) (validity : Option (List Bool))
  | largeList (offsets : List Nat) (values : ArrowArray) (validity : Option (List Bool))
  | chunk (dtype : ArrowDataType) (cells : List Cell)

namespace ArrowArray

def dtype : ArrowArray → ArrowDataType
  | flat d _ _ => d
  | largeList _ v _ => .largeList v.dtype
  | chunk d _ => d

def cells : ArrowArray → List Cell
  | flat _ vs none => vs.map .val
  | flat _ vs (some bits) => List.zipWith (fun v b => if b then .val v else .null) vs bits
  | largeList offs vs validity => ListBuf.rows ⟨offs, validity⟩ vs.cells
  | chunk _ cs => cs

def len (a : ArrowArray) : Nat := a.cells.length

end ArrowArray

/-- `PrimitiveArray::new`, `BooleanArray::new` and a view array's `with_validity`. -/
def flatArrayNew (dtype : ArrowDataType) (values : List Prim) (validity : Option (List Bool)) : Run ArrowArray :=
  if ∀ bits, validity = some bits → bits.length = values.length then .ok (.flat dtype values validity)
  else .error (.panic "validity mask length must match the number of values")

/-- `Into::<Option<Bitmap>>::into(MutableBitmap)`: no bitmap when no bit is unset. -/
def bitmapIntoOption (bits : List Bool) : Option (List Bool) := if bits.all id then none else some bits

/-- `MutableBitmap::set`. -/
def bitmapSet (bits : List Bool) (i : Nat) (b : Bool) : Run (List Bool) :=
  if i < bits.length then .ok (bits.set i b) else .error (.panic "index out of bounds")

/-- `OffsetsBuffer::<i64>::try_from(Vec<i64>)`. -/
def offsetsTryFrom (offsets : List Nat) : Run (List Nat) :=
  if offsets ≠ [] ∧ offsets.Pairwise (· ≤ ·) then .ok offsets else .error (.err .invalidOffsets)

/-- `LargeListArray::new(LargeListArray::default_datatype(item), offsets, values, validity)`. -/
def largeListNew (item : ArrowDataType) (offsets : List Nat) (values : ArrowArray) (validity : Option (List Bool)) :
    Run ArrowArray :=
  if values.dtype ≠ item then .error (.panic "ListArray's child's DataType must match")
  else if values.len < offsets.getLast?.getD 0 then .error (.panic "offsets must not exceed the values length")
  else if ∀ bits, validity = some bits → bits.length + 1 = offsets.length then .ok (.largeList offsets values validity)
  else .error (.panic "validity mask length must match the number of values")

/-! ## Series -/

structure Series where
  name : String
  dtype : DataType
  chunk : ArrowArray
  physical : chunk.dtype = dtype.physicalArrow

namespace Series

def cells (s : Series) : List Cell := s.chunk.cells

def len (s : Series) : Nat := s.cells.length

def withName (s : Series) (name : String) : Series := { s with name }

/-- A series holding the given cells in one chunk. -/
def ofCells (name : String) (dtype : DataType) (cells : List Cell) : Series := ⟨name, dtype, .chunk dtype.physicalArrow cells, rfl⟩

def newEmpty (name : String) (dtype : DataType) : Series := ofCells name dtype []

/-- `extend_constant(AnyValue::Null, n)`. -/
def extendNull (s : Series) (n : Nat) : Series := ofCells s.name s.dtype (s.cells ++ List.replicate n .null)

/-- `take(&IdxCa)`: a null index gathers a null. -/
def take (s : Series) (idx : List (Option Nat)) : Run Series :=
  if ∀ i ∈ idx, ∀ k, i = some k → k < s.len then .ok (ofCells s.name s.dtype (gather s.cells .null idx))
  else .error .outOfBounds

/-- `from_chunks_and_dtype_unchecked("", [array], dtype)`. -/
def fromChunksAndDtypeUnchecked (array : ArrowArray) (dtype : DataType) : Run Series :=
  if h : array.dtype = dtype.physicalArrow then .ok ⟨"", dtype, array, h⟩ else .error .undefinedBehaviour

/-- `with_chunk(name, array)` of the chunked array of a dtype; rustc pairs the two types. -/
def withChunk (name : String) (dtype : DataType) (array : ArrowArray) : Run Series :=
  if h : array.dtype = dtype.physicalArrow then .ok ⟨name, dtype, array, h⟩ else .error .illTyped

/-- The nanoseconds of a day. -/
def nanosecondsInDay : Int := 86400000000000

/-- A cell after a cast to a temporal dtype: a time of day outside the day becomes null. -/
def castCell (dtype : DataType) : Cell → Cell
  | .val (.int n) => if dtype = .time ∧ ¬ (0 ≤ n ∧ n < nanosecondsInDay) then .null else .val (.int n)
  | c => c

/-- `s.cast(&dtype)` of an integer series to a temporal dtype of the same width. -/
def cast (s : Series) (dtype : DataType) : Run Series := .ok (ofCells s.name dtype (s.cells.map (castCell dtype)))

@[simp] theorem withName_name (s : Series) (n : String) : (s.withName n).name = n := rfl
@[simp] theorem withName_dtype (s : Series) (n : String) : (s.withName n).dtype = s.dtype := rfl
@[simp] theorem withName_cells (s : Series) (n : String) : (s.withName n).cells = s.cells := rfl
@[simp] theorem ofCells_name (n : String) (d : DataType) (cs : List Cell) : (ofCells n d cs).name = n := rfl
@[simp] theorem ofCells_dtype (n : String) (d : DataType) (cs : List Cell) : (ofCells n d cs).dtype = d := rfl
@[simp] theorem ofCells_cells (n : String) (d : DataType) (cs : List Cell) : (ofCells n d cs).cells = cs := rfl
@[simp] theorem newEmpty_name (n : String) (d : DataType) : (newEmpty n d).name = n := rfl
@[simp] theorem newEmpty_dtype (n : String) (d : DataType) : (newEmpty n d).dtype = d := rfl
@[simp] theorem newEmpty_cells (n : String) (d : DataType) : (newEmpty n d).cells = [] := rfl
@[simp] theorem extendNull_dtype (s : Series) (n : Nat) : (s.extendNull n).dtype = s.dtype := rfl
@[simp] theorem extendNull_name (s : Series) (n : Nat) : (s.extendNull n).name = s.name := rfl
@[simp] theorem extendNull_cells (s : Series) (n : Nat) : (s.extendNull n).cells = s.cells ++ List.replicate n .null := rfl

end Series

/-! ## Data frames -/

structure DataFrame where
  columns : List Series
  height : Nat
  heights : ∀ s ∈ columns, s.len = height
  names : (columns.map Series.name).Nodup

namespace DataFrame

/-- The height of a frame built from its columns alone. -/
def inferHeight (columns : List Series) : Nat := (columns.head?.map Series.len).getD 0

/-- `DataFrame::new_infer_height`. -/
def newInferHeight (columns : List Series) : Run DataFrame :=
  if hh : ∀ s ∈ columns, s.len = inferHeight columns then
    if hn : (columns.map Series.name).Nodup then .ok ⟨columns, inferHeight columns, hh, hn⟩
    else .error (.err (.duplicate "column with this name has more than one occurrence"))
  else .error (.err .shapeMismatch)

/-- `df.column(name)?.as_materialized_series()`. -/
def column (df : DataFrame) (name : String) : Run Series :=
  match df.columns.find? (·.name == name) with
  | some s => .ok s
  | none => .error (.err (.columnNotFound name))

/-- `df.drop_in_place(name)?`: the frame keeps its height. -/
def dropInPlace (df : DataFrame) (name : String) : Run DataFrame :=
  if df.columns.any (·.name == name) then
    .ok ⟨df.columns.filter (·.name != name), df.height, fun s hs => df.heights s (List.mem_filter.mp hs).1,
      df.names.sublist (List.filter_sublist.map _)⟩
  else .error (.err (.columnNotFound name))

/-- Names and dtypes, in order. -/
def fields (df : DataFrame) : List (String × DataType) := df.columns.map fun s => (s.name, s.dtype)

/-- The cells of every column, in order. -/
def cells (df : DataFrame) : List (List Cell) := df.columns.map Series.cells

end DataFrame

end DfDerive
