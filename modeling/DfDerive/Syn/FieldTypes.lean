/-
  DfDerive.Syn.FieldTypes — the type of a field, as far as the derive looks into it.

  Paths are read with their generic arguments, references with their `mut`, and slices and
  tuples with their elements. Every other type, and every argument that is neither a
  lifetime nor a type, is kept as it stands. `FieldType.toSyn` is the type without `mut`.
-/

import DfDerive.Syn.Types

namespace DfDerive

/-- The types nothing looks into. -/
def SynType.isUnread : SynType → Bool
  | .path _ _ | .reference _ _ | .slice _ | .tuple _ => false
  | _ => true

structure OtherType where
  ty : SynType
  unread : ty.isUnread = true

def GenericArgument.isUnread : GenericArgument → Bool
  | .lifetime _ | .type _ => false
  | _ => true

structure OtherArgument where
  arg : GenericArgument
  unread : arg.isUnread = true

mutual
/-- `field.ty` -/
inductive FieldType where
  | path (qself : Option SynType) (leadingColon : Bool) (segments : List FieldSegment)
  | reference (lifetime : Option String) (mutability : Bool) (elem : FieldType)
  | slice (elem : FieldType)
  | tuple (elems : List FieldType)
  | other (ty : OtherType)

inductive FieldSegment where
  | mk (ident : String) (arguments : FieldArguments)

inductive FieldArguments where
  | none
  | angleBracketed (args : List FieldArgument)
  | parenthesized (inputs : List SynType) (output : Option SynType)

inductive FieldArgument where
  | lifetime (name : String)
  | type (ty : FieldType)
  | other (arg : OtherArgument)
end

def FieldSegment.ident : FieldSegment → String
  | mk i _ => i

def FieldSegment.arguments : FieldSegment → FieldArguments
  | mk _ a => a

/-- `matches!(arguments, PathArguments::None)` -/
def FieldArguments.isNone : FieldArguments → Bool
  | none => true
  | _ => false

@[simp] theorem FieldSegment.ident_mk (i : String) (a : FieldArguments) : (mk i a).ident = i := rfl
@[simp] theorem FieldSegment.arguments_mk (i : String) (a : FieldArguments) : (mk i a).arguments = a := rfl

theorem FieldArguments.isNone_iff {a : FieldArguments} : a.isNone = true ↔ a = .none := by
  cases a <;> simp [isNone]

/-! ## As a `syn` type -/

mutual
def FieldType.toSyn : FieldType → SynType
  | .path qself leadingColon segments => .path qself (.mk leadingColon (segmentsToSyn segments))
  | .reference lifetime _ elem => .reference lifetime elem.toSyn
  | .slice elem => .slice elem.toSyn
  | .tuple elems => .tuple (typesToSyn elems)
  | .other ty => ty.ty

def FieldArguments.toSyn : FieldArguments → PathArguments
  | .none => .none
  | .angleBracketed args => .angleBracketed (argsToSyn args)
  | .parenthesized inputs output => .parenthesized inputs output

def FieldArgument.toSyn : FieldArgument → GenericArgument
  | .lifetime name => .lifetime name
  | .type ty => .type ty.toSyn
  | .other arg => arg.arg

def segmentsToSyn : List FieldSegment → List PathSegment
  | [] => []
  | .mk ident arguments :: segments => .mk ident arguments.toSyn :: segmentsToSyn segments

def typesToSyn : List FieldType → List SynType
  | [] => []
  | ty :: tys => ty.toSyn :: typesToSyn tys

def argsToSyn : List FieldArgument → List GenericArgument
  | [] => []
  | arg :: args => arg.toSyn :: argsToSyn args
end

end DfDerive
