/-
  DfDerive.TypeAnalysis.Spellings — how wrappers and column types may be written.

  The paths the documentation gives to each of them, as tables. Nothing here looks at how the
  analysis reads a type.
-/

import DfDerive.Lower.Analysis
import DfDerive.TypeAnalysis.Rejections

namespace DfDerive

/-! ## Wrappers -/

def optionPaths : List (List String) := [["Option"], ["std", "option", "Option"], ["core", "option", "Option"]]

def vecPaths : List (List String) := [["Vec"], ["std", "vec", "Vec"], ["alloc", "vec", "Vec"]]

def smartPtrPaths : List (List String) :=
  [["Box"], ["std", "boxed", "Box"], ["alloc", "boxed", "Box"], ["Rc"], ["std", "rc", "Rc"], ["alloc", "rc", "Rc"],
    ["Arc"], ["std", "sync", "Arc"], ["alloc", "sync", "Arc"]]

def cowPaths : List (List String) := [["Cow"], ["std", "borrow", "Cow"], ["alloc", "borrow", "Cow"]]

/-! ## Column types -/

def numericNames : List (String × NumericKind) :=
  [("i8", .i8), ("i16", .i16), ("i32", .i32), ("i64", .i64), ("i128", .i128), ("isize", .isize), ("u8", .u8),
    ("u16", .u16), ("u32", .u32), ("u64", .u64), ("u128", .u128), ("usize", .usize), ("f32", .f32), ("f64", .f64)]

def nonZeroNames : List (String × NumericKind) :=
  [("NonZeroI8", .nonZeroI8), ("NonZeroI16", .nonZeroI16), ("NonZeroI32", .nonZeroI32), ("NonZeroI64", .nonZeroI64),
    ("NonZeroI128", .nonZeroI128), ("NonZeroIsize", .nonZeroISize), ("NonZeroU8", .nonZeroU8),
    ("NonZeroU16", .nonZeroU16), ("NonZeroU32", .nonZeroU32), ("NonZeroU64", .nonZeroU64),
    ("NonZeroU128", .nonZeroU128), ("NonZeroUsize", .nonZeroUSize)]

/-- The paths without arguments. -/
def knownPaths : List (List String × KnownBase) :=
  numericNames.map (fun (name, kind) => ([name], .numeric kind)) ++
    nonZeroNames.flatMap (fun (name, kind) =>
      [([name], .numeric kind), (["std", "num", name], .numeric kind), (["core", "num", name], .numeric kind)]) ++
    [(["bool"], .bool),
      (["String"], .string), (["std", "string", "String"], .string), (["alloc", "string", "String"], .string),
      (["Decimal"], .decimal), (["rust_decimal", "Decimal"], .decimal),
      (["NaiveDate"], .naiveDate), (["chrono", "NaiveDate"], .naiveDate),
      (["NaiveTime"], .naiveTime), (["chrono", "NaiveTime"], .naiveTime),
      (["NaiveDateTime"], .naiveDateTime), (["chrono", "NaiveDateTime"], .naiveDateTime),
      (["std", "time", "Duration"], .stdDuration), (["core", "time", "Duration"], .stdDuration),
      (["chrono", "Duration"], .chronoDuration), (["TimeDelta"], .chronoDuration),
      (["chrono", "TimeDelta"], .chronoDuration)]

/-- `DateTime<Tz>` -/
def dateTimePaths : List (List String) := [["DateTime"], ["chrono", "DateTime"]]

def collectionPaths (collection : UnsupportedCollection) : List (List String) :=
  [[collection.name], ["std", "collections", collection.name]]

namespace FieldType

/-- A wrapper path with the one argument `inner`. -/
def AppliesTo (paths : List (List String)) (inner ty : FieldType) : Prop :=
  ∃ leadingColon, ∃ path ∈ paths, ty = .path none leadingColon (applied path (.angleBracketed [.type inner]))

/-- A `Cow` of `inner`, with any lifetimes. -/
def CowOf (inner ty : FieldType) : Prop :=
  ∃ leadingColon, ∃ path ∈ cowPaths, ∃ before after : List String,
    ty = .path none leadingColon
      (applied path (.angleBracketed (before.map .lifetime ++ .type inner :: after.map .lifetime)))

/-- A path of the table, with any arguments or none. -/
def SpelledIn (paths : List (List String)) (ty : FieldType) : Prop :=
  ∃ leadingColon, ∃ path ∈ paths, ∃ arguments, ty = .path none leadingColon (applied path arguments)

/-- A path without arguments. -/
def IsPlain (path : List String) (ty : FieldType) : Prop := ∃ leadingColon, ty = .path none leadingColon (plain path)

def IsDateTime (ty : FieldType) : Prop :=
  ∃ leadingColon, ∃ path ∈ dateTimePaths, ∃ args : List FieldArgument, (∃ tz, .type tz ∈ args) ∧
    ty = .path none leadingColon (applied path (.angleBracketed args))

/-- A column type by its path. -/
def KnownAs (base : KnownBase) (ty : FieldType) : Prop :=
  (∃ path, (path, base) ∈ knownPaths ∧ ty.IsPlain path) ∨ (base = .dateTimeTz ∧ ty.IsDateTime)

def IsCollection (collection : UnsupportedCollection) (ty : FieldType) : Prop := ty.SpelledIn (collectionPaths collection)

/-- A generic parameter of the struct by its name. -/
def IsParam (genericParams : List String) (ident : String) (ty : FieldType) : Prop :=
  ident ∈ genericParams ∧ ty.IsPlain [ident]

def IsStr (ty : FieldType) : Prop := ty.IsPlain ["str"]

/-- `str` and slices have no size of their own. -/
def IsUnsized (ty : FieldType) : Prop := ty.IsStr ∨ ∃ elem, ty = .slice elem

/-- `ty` is the wrapper `w` written around `inner`. -/
inductive IsWrapper : FieldType → RawWrapper → FieldType → Prop where
  | option {ty inner : FieldType} (spelled : AppliesTo optionPaths inner ty) : IsWrapper ty .option inner
  | vec {ty inner : FieldType} (spelled : AppliesTo vecPaths inner ty) : IsWrapper ty .vec inner
  | smartPtr {ty inner : FieldType} (spelled : AppliesTo smartPtrPaths inner ty) : IsWrapper ty .smartPtr inner
  | cow {ty inner : FieldType} (spelled : CowOf inner ty) (sized : ¬ inner.IsUnsized) : IsWrapper ty .smartPtr inner
  | reference {lifetime : Option String} {inner : FieldType} (sized : ¬ inner.IsUnsized) :
      IsWrapper (.reference lifetime false inner) .smartPtr inner

end FieldType

end DfDerive
