/-
  DfDerive.Syn.Types — types as `syn` represents them, and the names that occur in them.

  A path argument is a lifetime, a type, a constant expression or an item of a trait. A
  constant written as a bare identifier is no constant expression here: `Foo<N>` parses as a
  path with the type argument `N`. rustc looks such an argument up among the types first, and
  among the values when there is no type of the name; any other path is a type's. Expressions
  and token streams are kept as the names that occur in them; identifiers are compared as
  written.
-/

namespace DfDerive

/-- A name that may refer to a generic parameter, by what it is looked up as. -/
inductive GenericName where
  /-- A type, or a module: the head of a path. -/
  | ident (name : String)
  /-- A bare argument: a type, or else a value. -/
  | argument (name : String)
  | value (name : String)
  | lifetime (name : String)
  deriving DecidableEq, Repr

/-- An expression, or tokens that are not parsed, by the names that occur in them. -/
abbrev SynTokens : Type := List GenericName

mutual
/-- `syn::Type` -/
inductive SynType where
  | array (elem : SynType) (len : SynTokens)
  | bareFn (lifetimes : List String) (inputs : List SynType) (output : Option SynType)
  | group (elem : SynType)
  | implTrait (bounds : List TypeParamBound)
  | infer
  | mac (tokens : SynTokens)
  | never
  | paren (elem : SynType)
  | path (qself : Option SynType) (path : SynPath)
  | ptr (elem : SynType)
  | reference (lifetime : Option String) (elem : SynType)
  | slice (elem : SynType)
  | traitObject (bounds : List TypeParamBound)
  | tuple (elems : List SynType)
  | verbatim (tokens : SynTokens)

/-- `syn::Path` -/
inductive SynPath where
  | mk (leadingColon : Bool) (segments : List PathSegment)

inductive PathSegment where
  | mk (ident : String) (arguments : PathArguments)

inductive PathArguments where
  | none
  | angleBracketed (args : List GenericArgument)
  | parenthesized (inputs : List SynType) (output : Option SynType)

/-- The generics of an associated item are empty when it has none. -/
inductive GenericArgument where
  | lifetime (name : String)
  | type (ty : SynType)
  | const (expr : SynTokens)
  | assocType (ident : String) (generics : List GenericArgument) (ty : SynType)
  | assocConst (ident : String) (generics : List GenericArgument) (value : SynTokens)
  | constraint (ident : String) (generics : List GenericArgument) (bounds : List TypeParamBound)

inductive TypeParamBound where
  | trait (lifetimes : List String) (path : SynPath)
  | lifetime (name : String)
  | preciseCapture (tokens : SynTokens)
  | verbatim (tokens : SynTokens)
end

def PathSegment.ident : PathSegment → String
  | mk i _ => i

def PathSegment.arguments : PathSegment → PathArguments
  | mk _ a => a

def SynPath.leadingColon : SynPath → Bool
  | mk l _ => l

def SynPath.segments : SynPath → List PathSegment
  | mk _ ss => ss

@[simp] theorem SynPath.leadingColon_mk (l : Bool) (ss : List PathSegment) : (mk l ss).leadingColon = l := rfl
@[simp] theorem SynPath.segments_mk (l : Bool) (ss : List PathSegment) : (mk l ss).segments = ss := rfl

/-- A path of plain identifiers. -/
def SynPath.ofIdents (leadingColon : Bool) (idents : List String) : SynPath :=
  .mk leadingColon (idents.map (.mk · .none))

/-! ## The names that occur free -/

/-- The names left once `for<'a, ..>` has bound its lifetimes. -/
def unbound (lifetimes : List String) (names : List GenericName) : List GenericName :=
  names.filter fun n => lifetimes.all (n ≠ .lifetime ·)

/-- The identifier of a bare argument, maybe in a group without delimiters. -/
def SynType.bareArgument : SynType → Option String
  | .path none (.mk false [.mk ident .none]) => some ident
  | .group elem => elem.bareArgument
  | _ => none

/-- What the first segment of a path is looked up as: nothing below the crate root. -/
def headName : Bool → List PathSegment → List GenericName
  | false, .mk ident _ :: _ => [.ident ident]
  | _, _ => []

mutual
def SynType.names : SynType → List GenericName
  | .array elem len => elem.names ++ len
  | .bareFn lifetimes inputs output => unbound lifetimes (namesOfTypes inputs ++ namesOfOutput output)
  | .group elem | .paren elem | .ptr elem | .slice elem => elem.names
  | .implTrait bounds | .traitObject bounds => namesOfBounds bounds
  | .infer | .never => []
  | .mac tokens | .verbatim tokens => tokens
  | .path none path => path.names
  -- past a qualified self the segments are items of it
  | .path (some ty) (.mk _ segments) => ty.names ++ namesOfSegments segments
  | .reference lifetime elem => lifetime.toList.map .lifetime ++ elem.names
  | .tuple elems => namesOfTypes elems

def SynPath.names : SynPath → List GenericName
  | .mk leadingColon segments => headName leadingColon segments ++ namesOfSegments segments

def PathArguments.names : PathArguments → List GenericName
  | .none => []
  | .angleBracketed args => namesOfArgs args
  | .parenthesized inputs output => namesOfTypes inputs ++ namesOfOutput output

def GenericArgument.names : GenericArgument → List GenericName
  | .lifetime name => [.lifetime name]
  | .type ty => match ty.bareArgument with
    | some ident => [.argument ident]
    | none => ty.names
  | .const expr => expr
  | .assocType _ generics ty => namesOfArgs generics ++ ty.names
  | .assocConst _ generics value => namesOfArgs generics ++ value
  | .constraint _ generics bounds => namesOfArgs generics ++ namesOfBounds bounds

def TypeParamBound.names : TypeParamBound → List GenericName
  | .trait lifetimes path => unbound lifetimes path.names
  | .lifetime name => [.lifetime name]
  | .preciseCapture tokens | .verbatim tokens => tokens

def namesOfOutput : Option SynType → List GenericName
  | none => []
  | some ty => ty.names

def namesOfTypes : List SynType → List GenericName
  | [] => []
  | ty :: tys => ty.names ++ namesOfTypes tys

/-- What the arguments of the segments mention. -/
def namesOfSegments : List PathSegment → List GenericName
  | [] => []
  | .mk _ arguments :: segments => arguments.names ++ namesOfSegments segments

def namesOfArgs : List GenericArgument → List GenericName
  | [] => []
  | arg :: args => arg.names ++ namesOfArgs args

def namesOfBounds : List TypeParamBound → List GenericName
  | [] => []
  | bound :: bounds => bound.names ++ namesOfBounds bounds
end

end DfDerive
