/-
  DfDerive.Codegen.Bounds — the bounds of the generated impls (`bounds.rs`).

  A generic parameter gets the bounds of the roles it plays, a concrete type a `where`
  predicate for each of its own. What the struct declares itself stays in front; only what
  is pushed after it is kept here.
-/

import DfDerive.Codegen.TypeDeps

namespace DfDerive

structure GenericRequirements where
  nestedParams : List TypePath
  nestedTypes : List TypePath
  decimalParams : List TypePath
  decimalTypes : List TypePath
  asRefStr : List TypePath
  asRefStrTypes : List TypePath
  displayParams : List TypePath
  displayTypes : List TypePath

def GenericRequirements.default : GenericRequirements := ⟨[], [], [], [], [], [], [], []⟩

def pushUnique (out : List TypePath) (ident : TypePath) : List TypePath :=
  if out.any (· == ident) then out else out ++ [ident]

def containsIdent (items : List TypePath) (ident : TypePath) : Bool := items.any (· == ident)

/-- The closure of `collect_leaf_requirements`. -/
def GenericRequirements.collect (reqs : GenericRequirements) : LeafSpec → GenericRequirements
  | .generic ident => { reqs with nestedParams := pushUnique reqs.nestedParams ident }
  | .struct ty => { reqs with nestedTypes := pushUniqueType reqs.nestedTypes ty }
  | .asStr (.generic ident) => { reqs with asRefStr := pushUnique reqs.asRefStr ident }
  | .asStr (.struct ty) => { reqs with asRefStrTypes := pushUniqueType reqs.asRefStrTypes ty }
  | .asString (.generic ident) => { reqs with displayParams := pushUnique reqs.displayParams ident }
  | .asString (.struct ty) => { reqs with displayTypes := pushUniqueType reqs.displayTypes ty }
  | .decimal _ _ (.generic ident) => { reqs with decimalParams := pushUnique reqs.decimalParams ident }
  | .decimal _ _ (.struct ty) => { reqs with decimalTypes := pushUniqueType reqs.decimalTypes ty }
  -- the runtime implements `Decimal128Encode` for the backend it knows
  | .decimal _ _ .runtimeKnown => reqs
  | .numeric _ | .string | .bool | .dateTime _ | .naiveDateTime _ | .naiveDate | .naiveTime | .duration _ _
  | .asString .inherent | .asStr .string | .asStr .borrowedStr | .asStr .cowStr | .binary | .tuple _ => reqs

def collectLeafRequirements (leaf : LeafSpec) (reqs : GenericRequirements) : GenericRequirements :=
  leaf.walkTerminalLeaves.foldl GenericRequirements.collect reqs

def collectGenericRequirements (ir : StructIR) : GenericRequirements :=
  ir.columns.foldl (fun reqs column => collectLeafRequirements column.leafSpec.leaf reqs) .default

/-- What is pushed: on each parameter of the struct, and on its `where` clause. -/
structure ImplBounds where
  params : List (GenericParam × List SynPath)
  predicates : List (TypePath × SynPath)

/-- The bounds pushed on one parameter. -/
def GenericRequirements.paramBounds (reqs : GenericRequirements) (traits : RuntimeTraitPaths) : GenericParam → List SynPath
  | .type ident =>
    (if containsIdent reqs.nestedParams ident then [traits.toDataframe, traits.columnar] else []) ++
      (if containsIdent reqs.decimalParams ident then [traits.decimal128Encode] else []) ++
      (if containsIdent reqs.asRefStr ident then [asRefStrBound] else []) ++
      (if containsIdent reqs.displayParams ident then [displayBound] else [])
  | .const _ | .lifetime _ => []

/-- The generated `where` predicates, in order. -/
def GenericRequirements.predicates (reqs : GenericRequirements) (traits : RuntimeTraitPaths) : List (TypePath × SynPath) :=
  reqs.nestedTypes.flatMap (fun ty => [(ty, traits.toDataframe), (ty, traits.columnar)]) ++
    reqs.asRefStrTypes.map (·, asRefStrBound) ++
    reqs.displayTypes.map (·, displayBound) ++
    reqs.decimalTypes.map (·, traits.decimal128Encode)

/-- `impl_parts_with_bounds`, for the parameters the struct is declared with. -/
def implPartsWithBounds (generics : List GenericParam) (traits : RuntimeTraitPaths) (ir : StructIR) : ImplBounds :=
  let reqs := collectGenericRequirements ir
  ⟨generics.map fun param => (param, reqs.paramBounds traits param), reqs.predicates traits⟩

end DfDerive
