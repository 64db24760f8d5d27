/-
  DfDerive.TypeAnalysis.Meaning — what a written type means to the derive.

  The documentation as a grammar: a type is a stack of wrappers, as spelled, around a base.
  `Means` relates a type to its wrappers and base, `Refused` to the reason it has none. A
  type that is a generic parameter of the struct is that parameter, even when it shares its
  name with a known type or a refused one.
-/

import DfDerive.TypeAnalysis.Spellings

namespace DfDerive

def KnownBase.leafBase : KnownBase → LeafBase
  | numeric kind => .numeric kind
  | bool => .bool
  | string => .string
  | decimal => .decimal
  | stdDuration => .stdDuration
  | chronoDuration => .chronoDuration
  | dateTimeTz => .dateTimeTz
  | naiveDate => .naiveDate
  | naiveTime => .naiveTime
  | naiveDateTime => .naiveDateTime

def RustType.stack : RustType → List RawWrapper
  | mk stack _ => stack

def RustType.base : RustType → RustBase
  | mk _ base => base

@[simp] theorem RustType.stack_mk (stack : List RawWrapper) (base : RustBase) : (mk stack base).stack = stack := rfl
@[simp] theorem RustType.base_mk (stack : List RawWrapper) (base : RustBase) : (mk stack base).base = base := rfl

namespace FieldType

/-- No parameter of the struct. -/
def NotParam (genericParams : List String) (ty : FieldType) : Prop := ∀ ident, ¬ ty.IsParam genericParams ident

/-- A path that no table lists: another row type. -/
structure IsForeign (genericParams : List String) (ty : FieldType) : Prop where
  path : ∃ qself leadingColon segments, ty = .path qself leadingColon segments
  notParam : ty.NotParam genericParams
  notWrapped : ∀ w inner, ¬ IsWrapper ty w inner
  notCow : ∀ inner, ¬ CowOf inner ty
  notCollection : ∀ collection, ¬ ty.IsCollection collection
  notDuration : ¬ ty.IsPlain ["Duration"]
  notStr : ¬ ty.IsStr
  notKnown : ∀ base, ¬ ty.KnownAs base

end FieldType

section
variable (genericParams : List String) (text : FieldType → TypePath)

open FieldType

/-! ## Meanings -/

mutual
/-- `ty` is written as the wrappers of the second argument around its base. -/
inductive Means : FieldType → RustType → Prop where
  | wrapper {ty inner : FieldType} {w : RawWrapper} {stack : List RawWrapper} {base : RustBase}
      (wraps : IsWrapper ty w inner) (means : Means inner (.mk stack base)) : Means ty (.mk (w :: stack) base)
  | base {ty : FieldType} {base : RustBase} (means : BaseMeans ty base) : Means ty (.mk [] base)

inductive BaseMeans : FieldType → RustBase → Prop where
  | borrowedStr {lifetime : Option String} {str : FieldType} (isStr : str.IsStr) :
      BaseMeans (.reference lifetime false str) (.leaf .borrowedStr)
  | borrowedBytes {lifetime : Option String} {u8 : FieldType} (isU8 : u8.IsPlain ["u8"]) :
      BaseMeans (.reference lifetime false (.slice u8)) (.leaf .borrowedBytes)
  | borrowedSlice {lifetime : Option String} {elem : FieldType} (notU8 : ¬ elem.IsPlain ["u8"]) :
      BaseMeans (.reference lifetime false (.slice elem)) (.leaf .borrowedSlice)
  | cowStr {ty str : FieldType} (cow : CowOf str ty) (isStr : str.IsStr) : BaseMeans ty (.leaf .cowStr)
  | cowBytes {ty u8 : FieldType} (cow : CowOf (.slice u8) ty) (isU8 : u8.IsPlain ["u8"]) : BaseMeans ty (.leaf .cowBytes)
  | cowSlice {ty elem : FieldType} (cow : CowOf (.slice elem) ty) (notU8 : ¬ elem.IsPlain ["u8"]) :
      BaseMeans ty (.leaf .cowSlice)
  | generic {ty : FieldType} {ident : String} (isParam : ty.IsParam genericParams ident) :
      BaseMeans ty (.leaf (.generic ident))
  | known {ty : FieldType} {base : KnownBase} (notParam : ty.NotParam genericParams) (known : ty.KnownAs base) :
      BaseMeans ty (.leaf base.leafBase)
  | struct {ty : FieldType} (foreign : ty.IsForeign genericParams) : BaseMeans ty (.leaf (.struct (text ty)))
  | tuple {elems : List FieldType} {elements : List RustType} (nonempty : elems ≠ []) (each : EachMeans elems elements) :
      BaseMeans (.tuple elems) (.tuple elements)

inductive EachMeans : List FieldType → List RustType → Prop where
  | nil : EachMeans [] []
  | cons {ty : FieldType} {rt : RustType} {tys : List FieldType} {rts : List RustType} (first : Means ty rt)
      (rest : EachMeans tys rts) : EachMeans (ty :: tys) (rt :: rts)
end

/-! ## Refusals -/

mutual
/-- `ty` has no meaning, for the reason given: the first one from the outside in and from
    left to right. -/
inductive Refused : FieldType → TypeError → Prop where
  | mutableReference {lifetime : Option String} {elem : FieldType} :
      Refused (.reference lifetime true elem) .mutableReference
  | wrapper {ty inner : FieldType} {w : RawWrapper} {e : TypeError} (wraps : IsWrapper ty w inner)
      (refused : Refused inner e) : Refused ty e
  | base {ty : FieldType} {e : TypeError} (refused : BaseRefused ty e) : Refused ty e

inductive BaseRefused : FieldType → TypeError → Prop where
  | collection {ty : FieldType} {collection : UnsupportedCollection} (notParam : ty.NotParam genericParams)
      (isCollection : ty.IsCollection collection) :
      BaseRefused ty (.unsupportedCollection collection)
  | duration {ty : FieldType} (notParam : ty.NotParam genericParams) (isDuration : ty.IsPlain ["Duration"]) :
      BaseRefused ty .bareDuration
  | str {ty : FieldType} (notParam : ty.NotParam genericParams) (isStr : ty.IsStr) : BaseRefused ty .bareStr
  | slice {elem : FieldType} : BaseRefused (.slice elem) .bareSlice
  | unit : BaseRefused (.tuple []) .unitField
  | other {ty : OtherType} : BaseRefused (.other ty) .unsupportedFieldType
  | tuple {elems : List FieldType} {e : TypeError} (each : EachRefused elems e) : BaseRefused (.tuple elems) e

inductive EachRefused : List FieldType → TypeError → Prop where
  | here {ty : FieldType} {tys : List FieldType} {e : TypeError} (refused : Refused ty e) : EachRefused (ty :: tys) e
  | later {ty : FieldType} {rt : RustType} {tys : List FieldType} {e : TypeError}
      (means : Means genericParams text ty rt) (refused : EachRefused tys e) : EachRefused (ty :: tys) e
end

end

end DfDerive
