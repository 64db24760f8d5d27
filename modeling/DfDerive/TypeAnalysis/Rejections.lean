/-
  DfDerive.TypeAnalysis.Rejections — types that are refused by name (`type_analysis/rejections.rs`).

  An error about a type carries no field: it is reported at the type itself.
-/

import DfDerive.TypeAnalysis.KnownTypes

namespace DfDerive

inductive UnsupportedCollection where
  | hashMap
  | bTreeMap
  | hashSet
  | bTreeSet
  | vecDeque
  | linkedList
  deriving DecidableEq, Repr

namespace UnsupportedCollection

def all : List UnsupportedCollection := [hashMap, bTreeMap, hashSet, bTreeSet, vecDeque, linkedList]

def name : UnsupportedCollection → String
  | hashMap => "HashMap"
  | bTreeMap => "BTreeMap"
  | hashSet => "HashSet"
  | bTreeSet => "BTreeSet"
  | vecDeque => "VecDeque"
  | linkedList => "LinkedList"

def diagnostic : UnsupportedCollection → String
  | hashMap =>
    "df-derive does not support `HashMap` fields. Convert to `Vec<(K, V)>` or pre-flatten into named columns before " ++
      "assignment."
  | bTreeMap =>
    "df-derive does not support `BTreeMap` fields. Convert to `Vec<(K, V)>` or pre-flatten into named columns before " ++
      "assignment."
  | hashSet =>
    "df-derive does not support `HashSet` fields. Convert to `Vec<T>` (order will be set-defined, not " ++
      "insertion-defined)."
  | bTreeSet =>
    "df-derive does not support `BTreeSet` fields. Convert to `Vec<T>` (order will follow the set's sorted iteration " ++
      "order)."
  | vecDeque => "df-derive does not support `VecDeque` fields. Convert to `Vec<T>` before assignment."
  | linkedList => "df-derive does not support `LinkedList` fields. Convert to `Vec<T>` before assignment."

end UnsupportedCollection

/-- The errors of the analysis of a type. -/
inductive TypeError where
  | mutableReference
  | unsupportedCollection (collection : UnsupportedCollection)
  | bareDuration
  | bareStr
  | bareSlice
  | unitField
  | unsupportedFieldType
  deriving DecidableEq, Repr

def TypeError.message : TypeError → String
  | mutableReference =>
    "df-derive does not support `&mut T` fields; use `&T`, an owned value, or mark the field `#[df_derive(skip)]`"
  | unsupportedCollection collection => collection.diagnostic
  | bareDuration =>
    "bare `Duration` is ambiguous; use `std::time::Duration`, `core::time::Duration`, or `chrono::Duration` to " ++
      "disambiguate"
  | bareStr =>
    "df-derive does not support bare or smart-pointer-wrapped `str` leaves; use `String`, `&str`, `Cow<'_, str>`, or " ++
      "a sized wrapper such as `Box<String>`"
  | bareSlice =>
    "df-derive does not support bare or smart-pointer-wrapped `[T]` slice leaves; use `Vec<T>` for list columns, or " ++
      "use `&[u8]`/`Cow<'_, [u8]>` with `#[df_derive(as_binary)]` for borrowed binary data"
  | unitField =>
    "df-derive does not support direct unit-typed (`()`) fields; they would contribute zero columns. Remove the " ++
      "field, replace it with a non-unit type, or use a generic payload such as `field: M` with `M = ()`."
  | unsupportedFieldType => "Unsupported field type"

namespace FieldType

def pathIsBareOrStdCollection (ty : FieldType) (leaf : String) : Bool :=
  ty.pathView.any fun path =>
    match path.leaf with
    | some segment =>
      segment.ident == leaf &&
        (path.length == 1 || (path.length == 3 && ty.pathPrefixIsNoArgs ["std", "collections"]))
    | none => false

def unsupportedCollectionKind (ty : FieldType) : Option UnsupportedCollection :=
  UnsupportedCollection.all.find? fun collection => ty.pathIsBareOrStdCollection collection.name

def rejectUnsupportedCollectionType (ty : FieldType) : Except TypeError Unit :=
  match ty.unsupportedCollectionKind with
  | some collection => .error (.unsupportedCollection collection)
  | none => .ok ()

def rejectBareDuration (ty : FieldType) (genericParams : List String) : Except TypeError Unit :=
  match ty with
  | .path none _ [.mk ident .none] =>
    if ident = "Duration" ∧ !genericParams.any (· == ident) then .error .bareDuration else .ok ()
  | _ => .ok ()

def rejectBareUnsizedLeaf (ty : FieldType) : Except TypeError Unit :=
  if ty.isBareStrType then .error .bareStr
  else match ty with
    | .slice _ => .error .bareSlice
    | _ => .ok ()

end FieldType

end DfDerive
