/-
  DfDerive.Codegen.TypeDeps — eager trait assertions (`type_deps.rs`, `asserts.rs`).

  `generate_code` asserts the trait bounds of the field types at module level, outside any
  impl, where the parameters of the struct are not in scope: a type is asserted there only
  when `typeDependsOnGenerics` finds no parameter in it.
-/

import DfDerive.Codegen.Config
import DfDerive.Ir.Columns

namespace DfDerive

/-- `syn::GenericParam` -/
inductive GenericParam where
  | type (ident : String)
  | const (ident : String)
  | lifetime (ident : String)
  deriving DecidableEq, Repr

structure GenericContext where
  typeParams : List String
  constParams : List String
  lifetimeParams : List String

namespace GenericContext

def push (ctx : GenericContext) : GenericParam → GenericContext
  | .type ident => { ctx with typeParams := ctx.typeParams ++ [ident] }
  | .const ident => { ctx with constParams := ctx.constParams ++ [ident] }
  | .lifetime ident => { ctx with lifetimeParams := ctx.lifetimeParams ++ [ident] }

def new (params : List GenericParam) : GenericContext := params.foldl push ⟨[], [], []⟩

def hasTypeParam (ctx : GenericContext) (ident : String) : Bool := ctx.typeParams.any (· == ident)

def hasLifetimeParam (ctx : GenericContext) (ident : String) : Bool := ctx.lifetimeParams.any (· == ident)

def hasConstParams (ctx : GenericContext) : Bool := !ctx.constParams.isEmpty

end GenericContext

/-! ## Dependence -/

/-- `T` alone, without arguments. -/
def isBareTypeParam (ctx : GenericContext) : SynPath → Bool
  | .mk _ [.mk ident .none] => ctx.hasTypeParam ident
  | _ => false

mutual
def typeDependsOnGenerics (ctx : GenericContext) : SynType → Bool
  | .array elem _ => ctx.hasConstParams || typeDependsOnGenerics ctx elem
  | .group elem | .paren elem | .ptr elem | .slice elem => typeDependsOnGenerics ctx elem
  | .path none path => isBareTypeParam ctx path || pathDependsOnGenerics ctx path
  | .path (some ty) path => typeDependsOnGenerics ctx ty || pathDependsOnGenerics ctx path
  | .reference _ elem => typeDependsOnGenerics ctx elem
  | .tuple elems => anyTypeDepends ctx elems
  -- function pointers, trait objects, `impl Trait`, type macros and the rest
  | .bareFn _ _ _ | .implTrait _ | .infer | .mac _ | .never | .traitObject _ | .verbatim _ => false

def pathDependsOnGenerics (ctx : GenericContext) : SynPath → Bool
  | .mk _ segments => anySegmentDepends ctx segments

def anySegmentDepends (ctx : GenericContext) : List PathSegment → Bool
  | [] => false
  | .mk ident arguments :: segments =>
    (ctx.hasTypeParam ident || argumentsDepend ctx arguments) || anySegmentDepends ctx segments

def argumentsDepend (ctx : GenericContext) : PathArguments → Bool
  | .angleBracketed args => anyArgumentDepends ctx args
  | .none | .parenthesized _ _ => false

def anyArgumentDepends (ctx : GenericContext) : List GenericArgument → Bool
  | [] => false
  | arg :: args => genericArgumentDependsOnGenerics ctx arg || anyArgumentDepends ctx args

def genericArgumentDependsOnGenerics (ctx : GenericContext) : GenericArgument → Bool
  | .lifetime name => ctx.hasLifetimeParam name
  | .type ty => typeDependsOnGenerics ctx ty
  | .const _ => ctx.hasConstParams
  | .assocType _ _ ty => typeDependsOnGenerics ctx ty
  | .constraint _ _ bounds => anyBoundDepends ctx bounds
  | .assocConst _ _ _ => false

def anyBoundDepends (ctx : GenericContext) : List TypeParamBound → Bool
  | [] => false
  | bound :: bounds => boundDepends ctx bound || anyBoundDepends ctx bounds

def boundDepends (ctx : GenericContext) : TypeParamBound → Bool
  | .trait _ path => pathDependsOnGenerics ctx path
  | .lifetime _ | .preciseCapture _ | .verbatim _ => false

def anyTypeDepends (ctx : GenericContext) : List SynType → Bool
  | [] => false
  | ty :: tys => typeDependsOnGenerics ctx ty || anyTypeDepends ctx tys
end

/-! ## Assertions -/

/-- A type is told by its token text. -/
def pushUniqueType (out : List TypePath) (ty : TypePath) : List TypePath :=
  if out.any (· == ty) then out else out ++ [ty]

/-- `::core::convert::AsRef<str>` -/
def asRefStrBound : SynPath :=
  .mk true [.mk "core" .none, .mk "convert" .none,
    .mk "AsRef" (.angleBracketed [.type (.path none (.ofIdents false ["str"]))])]

/-- `::core::fmt::Display` -/
def displayBound : SynPath := .ofIdents true ["core", "fmt", "Display"]

/-- One asserting helper: the traits of the runtime and of `core` it asks for, and the types it
    is called at. The relaxed `?Sized` next to a trait of `core` asks for nothing. -/
structure EagerAssert where
  runtime : List SynPath
  core : List SynPath
  types : List TypePath

def EagerAssert.bounds (a : EagerAssert) : List SynPath := a.runtime ++ a.core

mutual
def LeafSpec.walkTerminalLeaves : LeafSpec → List LeafSpec
  | .tuple elements => walkElements elements
  | leaf => [leaf]

def walkElements : List TupleElement → List LeafSpec
  | [] => []
  | .mk leafSpec _ _ :: elements => leafSpec.walkTerminalLeaves ++ walkElements elements
end

namespace LeafSpec

def nestedType : LeafSpec → Option TypePath
  | .struct ty => some ty
  | _ => none

def decimalBackendType : LeafSpec → Option TypePath
  | .decimal _ _ (.struct ty) => some ty
  | _ => none

def asRefStrType : LeafSpec → Option TypePath
  | .asStr (.struct ty) => some ty
  | _ => none

def displayType : LeafSpec → Option TypePath
  | .asString (.struct ty) => some ty
  | _ => none

end LeafSpec

section
variable (syn : TypePath → SynType) (ctx : GenericContext)

/-- The common body of the collectors: `pick` is the leaf each one looks for. -/
def collectAsserts (pick : LeafSpec → Option TypePath) (out : List TypePath) (leaf : LeafSpec) : List TypePath :=
  leaf.walkTerminalLeaves.foldl (fun out leaf =>
    match pick leaf with
    | some ty => if typeDependsOnGenerics ctx (syn ty) then out else pushUniqueType out ty
    | none => out) out

def collectNestedAsserts := collectAsserts syn ctx LeafSpec.nestedType
def collectDecimalAsserts := collectAsserts syn ctx LeafSpec.decimalBackendType
def collectAsRefStrAsserts := collectAsserts syn ctx LeafSpec.asRefStrType
def collectDisplayAsserts := collectAsserts syn ctx LeafSpec.displayType

end

/-- A helper without types is not emitted. -/
def EagerAssert.emit (runtime core : List SynPath) (types : List TypePath) : List EagerAssert :=
  if types.isEmpty then [] else [⟨runtime, core, types⟩]

/-- `syn` is the type behind each token text. -/
def generateEagerAsserts (syn : TypePath → SynType) (generics : List GenericParam) (traits : RuntimeTraitPaths)
    (ir : StructIR) : List EagerAssert :=
  let ctx := GenericContext.new generics
  let types (collect : List TypePath → LeafSpec → List TypePath) : List TypePath :=
    ir.columns.foldl (fun out column => collect out column.leafSpec.leaf) []
  EagerAssert.emit [traits.toDataframe, traits.columnar] [] (types (collectNestedAsserts syn ctx)) ++
    EagerAssert.emit [traits.decimal128Encode] [] (types (collectDecimalAsserts syn ctx)) ++
    EagerAssert.emit [] [asRefStrBound] (types (collectAsRefStrAsserts syn ctx)) ++
    EagerAssert.emit [] [displayBound] (types (collectDisplayAsserts syn ctx))

end DfDerive
