/-
  DfDerive.Lower.Errors — the errors of lowering (`lower/errors/`).

  Every error about a field carries the field's display name.
-/

import Mathlib.Data.List.Basic

namespace DfDerive

inductive LowerError where
  | unitField
  | unannotatedCowBytes (field : String) (canAddAsBinary : Bool)
  | unannotatedBorrowedBytes (field : String) (canAddAsBinary : Bool)
  | borrowedSlice (field : String)
  | cowSlice (field : String)
  | asStrWrongBase (field : String)
  | asStringStdDuration (field : String)
  | asStringBytes (field : String)
  | asStringSlice (field : String)
  | asStringTuple (field : String)
  | decimalWrongBase (field : String)
  | timeUnitNaiveDate (field : String)
  | timeUnitNaiveTime (field : String)
  | timeUnitWrongBase (field : String)
  | bareBinaryU8 (field : String)
  | binaryInnerOption (field : String)
  | binaryWrongBase (field : String)
  | binaryCowSlice (field : String)
  | binaryBorrowedSlice (field : String)
  | unsupportedTupleAttr (field attr : String)
  | unsupportedWrappedNestedTuple (field : String)
  | invalidFlattenField (field : String)
  deriving DecidableEq, Repr

def LowerError.message : LowerError → String
  | unitField =>
    "df-derive does not support direct unit-typed (`()`) fields; they would contribute zero columns. Remove the " ++
      "field, replace it with a non-unit type, or use a generic payload such as `field: M` with `M = ()`."
  | unannotatedCowBytes f true =>
    s!"field `{f}` uses `Cow<'_, [u8]>` without `as_binary`; add `#[df_derive(as_binary)]` to encode it as Binary, " ++
      "or use `Vec<u8>` if you want the default `List(UInt8)` representation"
  | unannotatedCowBytes f false =>
    s!"field `{f}` contains `Cow<'_, [u8]>` in a tuple element; tuple elements cannot be annotated with `as_binary`, " ++
      "so use `Vec<u8>` for the default `List(UInt8)` representation or hoist the bytes into a named struct field " ++
      "with `#[df_derive(as_binary)]`"
  | unannotatedBorrowedBytes f true =>
    s!"field `{f}` uses `&[u8]` without `as_binary`; add `#[df_derive(as_binary)]` to encode it as Binary, or use " ++
      "`Vec<u8>` if you want the default `List(UInt8)` representation"
  | unannotatedBorrowedBytes f false =>
    s!"field `{f}` contains `&[u8]` in a tuple element; tuple elements cannot be annotated with `as_binary`, so use " ++
      "`Vec<u8>` for the default `List(UInt8)` representation or hoist the bytes into a named struct field with " ++
      "`#[df_derive(as_binary)]`"
  | borrowedSlice f =>
    s!"field `{f}` uses `&[T]`, but df-derive only supports `&[u8]` with `#[df_derive(as_binary)]`; use `Vec<T>` " ++
      "for list columns"
  | cowSlice f =>
    s!"field `{f}` uses `Cow<'_, [T]>`, but df-derive only supports `Cow<'_, [u8]>` with `#[df_derive(as_binary)]`; " ++
      "use `Vec<T>` for list columns"
  | asStrWrongBase f =>
    s!"field `{f}` has `as_str` but its base type does not implement `AsRef<str>`; `as_str` only applies to " ++
      "`String`, `&str`, `Cow<'_, str>`, custom struct types, or generic type parameters — drop the attribute or " ++
      "change the field type"
  | asStringStdDuration f =>
    s!"field `{f}` has `as_string`, but `std::time::Duration` and `core::time::Duration` do not implement " ++
      "`Display`; drop `as_string` to encode a Duration column, or wrap the value in a custom type that implements " ++
      "`Display`"
  | asStringBytes f =>
    s!"field `{f}` has `as_string`, but byte slices (`&[u8]`/`Cow<'_, [u8]>`) do not implement `Display`; use " ++
      "`#[df_derive(as_binary)]` for a Binary column, use `Vec<u8>` for a `List(UInt8)` column, or wrap the value " ++
      "in a custom type that implements `Display`"
  | asStringSlice f =>
    s!"field `{f}` has `as_string`, but borrowed slices (`&[T]`/`Cow<'_, [T]>`) do not implement `Display`; use " ++
      "`Vec<T>` for list columns, or wrap the value in a custom type that implements `Display`"
  | asStringTuple f =>
    s!"field `{f}` has `as_string` but its type is a tuple; field-level attributes do not apply to multi-column " ++
      "tuple fields. Hoist the tuple into a named struct that derives `ToDataFrame` if you need per-element " ++
      "attributes."
  | decimalWrongBase f =>
    s!"field `{f}` has `decimal(...)` but its base type is not a decimal backend candidate; `decimal(...)` applies " ++
      "to types named `Decimal`, custom struct types, or generic type parameters that implement `Decimal128Encode`"
  | timeUnitNaiveDate f =>
    s!"field `{f}` has `time_unit = \"...\"` but its base type is `chrono::NaiveDate`, which has a fixed encoding " ++
      "(i32 days since 1970-01-01) and offers no unit choice — remove the attribute"
  | timeUnitNaiveTime f =>
    s!"field `{f}` has `time_unit = \"...\"` but its base type is `chrono::NaiveTime`, which has a fixed encoding " ++
      "(i64 nanoseconds since midnight) and offers no unit choice — remove the attribute"
  | timeUnitWrongBase f =>
    s!"field `{f}` has `time_unit = \"...\"` but its base type is not `chrono::DateTime<Tz>`, " ++
      "`chrono::NaiveDateTime`, `std::time::Duration`, `core::time::Duration`, or `chrono::Duration`; remove the " ++
      "attribute or change the field type"
  | bareBinaryU8 f =>
    s!"field `{f}` has `as_binary` but its type is a single `u8`; `as_binary` requires a `Vec<u8>` shape — bare " ++
      "`u8` is a single byte, not a binary blob. Wrap the field in `Vec<u8>` to opt into Binary."
  | binaryInnerOption f =>
    s!"field `{f}` has `as_binary` but the wrapper stack places an `Option` between the `Vec` and the `u8` leaf; " ++
      "BinaryView cannot carry per-byte nulls. Use `Vec<u8>` directly (drop the inner `Option`)."
  | binaryWrongBase f =>
    s!"field `{f}` has `as_binary` but its base type is not `u8`; `as_binary` requires a `Vec<u8>` shape (the " ++
      "innermost `Vec` becomes the Binary blob). Change the field type or drop the attribute."
  | binaryCowSlice f =>
    s!"field `{f}` has `as_binary` on `Cow<'_, [T]>`, but `as_binary` only supports `Cow<'_, [u8]>`; use `Vec<T>` " ++
      "for list columns"
  | binaryBorrowedSlice f =>
    s!"field `{f}` has `as_binary` on `&[T]`, but `as_binary` only supports `&[u8]`; use `Vec<T>` for list columns"
  | unsupportedTupleAttr f attr =>
    s!"field `{f}` has `{attr}` but its type is a tuple; field-level attributes do not apply to multi-column tuple " ++
      "fields. Hoist the tuple into a named struct that derives `ToDataFrame` if you need per-element attributes."
  | unsupportedWrappedNestedTuple f =>
    s!"field `{f}` contains a nested tuple whose projection path is wrapped; nested tuples are supported only when " ++
      "each tuple on that path is unwrapped. Hoist the inner tuple into a named struct deriving `ToDataFrame`, or " ++
      "remove the `Option`/`Vec` wrapper around the tuple."
  | invalidFlattenField f =>
    s!"field `{f}` has `flatten`, but flatten is only supported for bare nested row fields after transparent pointer " ++
      "peeling. Use a concrete struct or generic row payload that implements `ToDataFrame + Columnar`; nullable, " ++
      "list, tuple, primitive, and conversion-shaped fields must remain prefixed."

end DfDerive
