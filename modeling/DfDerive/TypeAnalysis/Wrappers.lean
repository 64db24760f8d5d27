/-
  DfDerive.TypeAnalysis.Wrappers — wrappers as written (`type_analysis/wrappers.rs`).

  The loop takes one wrapper off at a time: `Option`, `Vec`, the owning pointers, `Cow` and
  `&`, in this order. A wrapper path has exactly one argument, a type; `Cow` may have
  lifetimes beside it. A reference or `Cow` directly over `str` or a slice is a base of its
  own and ends the loop.
-/

import DfDerive.TypeAnalysis.Analyzed
import DfDerive.TypeAnalysis.Rejections

namespace DfDerive

/-- What `peel_cow` finds in a `Cow`. -/
inductive CowPeel where
  | rebind (inner : FieldType)
  | keepAsSemanticBase

namespace FieldType

def singleTypeArg : List FieldArgument → Option FieldType
  | [.type ty] => some ty
  | _ => none

/-- The arguments in angle brackets on the last segment. -/
def angleArgs : FieldType → Option (List FieldArgument)
  | .path _ _ segments =>
    match segments.getLast? with
    | some (.mk _ (.angleBracketed args)) => some args
    | _ => none
  | _ => none

def extractInnerType (ty : FieldType) (wrapper : String) (qualified : List String) : Option FieldType :=
  if ty.wrapperPathMatches wrapper qualified then ty.angleArgs.bind singleTypeArg else none

def peelOption (ty : FieldType) : Option FieldType :=
  (ty.extractInnerType "Option" ["std", "option", "Option"]).orElse fun _ =>
    ty.extractInnerType "Option" ["core", "option", "Option"]

def peelVec (ty : FieldType) : Option FieldType :=
  (ty.extractInnerType "Vec" ["std", "vec", "Vec"]).orElse fun _ => ty.extractInnerType "Vec" ["alloc", "vec", "Vec"]

def peelSmartPtr (ty : FieldType) : Option FieldType :=
  (ty.extractInnerType "Box" ["std", "boxed", "Box"]).orElse fun _ =>
    (ty.extractInnerType "Box" ["alloc", "boxed", "Box"]).orElse fun _ =>
      (ty.extractInnerType "Rc" ["std", "rc", "Rc"]).orElse fun _ =>
        (ty.extractInnerType "Rc" ["alloc", "rc", "Rc"]).orElse fun _ =>
          (ty.extractInnerType "Arc" ["std", "sync", "Arc"]).orElse fun _ =>
            ty.extractInnerType "Arc" ["alloc", "sync", "Arc"]

/-! ## `Cow` -/

def isCowPath (ty : FieldType) : Bool :=
  ty.pathIsExactWithLeafArgs ["Cow"] || ty.pathIsExactWithLeafArgs ["std", "borrow", "Cow"] ||
    ty.pathIsExactWithLeafArgs ["alloc", "borrow", "Cow"]

/-- One argument of a `Cow`: lifetimes are passed over, a second type or anything else ends
    the search. -/
def cowArgument (inner : Option FieldType) : FieldArgument → Option (Option FieldType)
  | .lifetime _ => some inner
  | .type ty => if inner.isSome then none else some (some ty)
  | .other _ => none

def cowInnerType (ty : FieldType) : Option FieldType :=
  if !ty.isCowPath then none else (ty.angleArgs.bind fun args => args.foldlM cowArgument none).join

def isSlice : FieldType → Bool
  | .slice _ => true
  | _ => false

def peelCow (ty : FieldType) : Option CowPeel :=
  if !ty.isCowPath then none
  else
    ty.cowInnerType.map fun inner =>
      if inner.isBareStrType then .keepAsSemanticBase
      else if inner.isSlice then .keepAsSemanticBase
      else .rebind inner

/-- `analyze_cow_base` -/
def analyzeCowBase (ty : FieldType) : Option AnalyzedFieldBase :=
  ty.cowInnerType.bind fun inner =>
    if inner.isBareStrType then some .cowStr
    else match inner with
      | .slice elem => some (if elem.isU8Type then .cowBytes else .cowSlice)
      | _ => none

/-! ## References -/

/-- The base of a reference to `elem`, when it is one. -/
def borrowedReferenceBase (elem : FieldType) : Option AnalyzedFieldBase :=
  if elem.isBareStrType then some .borrowedStr
  else match elem with
    | .slice elem => some (if elem.isU8Type then .borrowedBytes else .borrowedSlice)
    | _ => none

def peelReference : FieldType → Except TypeError (Option FieldType)
  | .reference _ mutability elem =>
    if mutability then .error .mutableReference
    else if (borrowedReferenceBase elem).isSome then .ok none
    else .ok (some elem)
  | _ => .ok none

/-! ## The loop -/

/-- One turn of the loop: the wrapper taken off, and the type under it. -/
def peelLayer (ty : FieldType) : Except TypeError (Option (RawWrapper × FieldType)) :=
  match ty.peelOption with
  | some inner => .ok (some (.option, inner))
  | none =>
    match ty.peelVec with
    | some inner => .ok (some (.vec, inner))
    | none =>
      match ty.peelSmartPtr with
      | some inner => .ok (some (.smartPtr, inner))
      | none =>
        match ty.peelCow with
        | some (.rebind inner) => .ok (some (.smartPtr, inner))
        | some .keepAsSemanticBase => .ok none
        | none => do
          match ← ty.peelReference with
          | some inner => .ok (some (.smartPtr, inner))
          | none => .ok none

end FieldType

end DfDerive
