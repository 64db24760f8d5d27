/-
  DfDerive.Codegen.TypeDepsProofs — which types are found to depend on a parameter.

  `SynType.occurrences` is where the names of a type stand, as `typeDependsOnGenerics` walks
  it. A parameter that stands at the head of a path, as a lifetime argument or in a constant
  the walk sees is found; a constant as a bare argument is missed, and so is whatever stands
  in the lifetime of a reference, a function pointer, a trait object, parenthesized arguments
  or an unparsed place. A type is also found by coincidence: a later segment spelled like a
  type parameter, any constant next to a constant parameter (`depends_iff`). So a type that
  mentions a parameter is found unless it escapes: all its mentions are missed, and no
  coincidence helps (`mentions_depends`).
-/

import DfDerive.Codegen.TypeDeps
import DfDerive.Lower.Projection

namespace DfDerive

/-! ## Occurrences -/

/-- Where the walk meets a name, or a place for constants. -/
inductive Occurrence where
  /-- The first segment of a path. -/
  | head (ident : String)
  /-- A segment after another one, after `::` or after a qualified self. -/
  | item (ident : String)
  | argument (ident : String)
  | lifetime (name : String)
  /-- A lifetime argument bound by a `for<..>` around it. -/
  | boundLifetime (name : String)
  /-- An array length or a constant argument. -/
  | constant (names : SynTokens)
  /-- A name where the walk never goes. -/
  | skipped (name : GenericName)
  deriving DecidableEq, Repr

/-- What is left of an occurrence below `for<'a, ..>`. -/
def Occurrence.under (lifetimes : List String) : Occurrence → List Occurrence
  | lifetime name => if lifetimes.contains name then [boundLifetime name] else [lifetime name]
  | constant names => [constant (unbound lifetimes names)]
  | skipped name => (unbound lifetimes [name]).map skipped
  | o => [o]

mutual
def SynType.occurrences : SynType → List Occurrence
  | .array elem len => elem.occurrences ++ [.constant len]
  | .bareFn lifetimes inputs output => (unbound lifetimes (namesOfTypes inputs ++ namesOfOutput output)).map .skipped
  | .group elem | .paren elem | .ptr elem | .slice elem => elem.occurrences
  | .implTrait bounds | .traitObject bounds => (namesOfBounds bounds).map .skipped
  | .infer | .never => []
  | .mac tokens | .verbatim tokens => tokens.map .skipped
  | .path none path => path.occurrences
  | .path (some ty) (.mk _ segments) => ty.occurrences ++ occurrencesOfSegments false segments
  | .reference lifetime elem => (lifetime.toList.map fun name => .skipped (.lifetime name)) ++ elem.occurrences
  | .tuple elems => occurrencesOfTypes elems

def SynPath.occurrences : SynPath → List Occurrence
  | .mk leadingColon segments => occurrencesOfSegments (!leadingColon) segments

def PathArguments.occurrences : PathArguments → List Occurrence
  | .none => []
  | .angleBracketed args => occurrencesOfArgs args
  | .parenthesized inputs output => (namesOfTypes inputs ++ namesOfOutput output).map .skipped

def GenericArgument.occurrences : GenericArgument → List Occurrence
  | .lifetime name => [.lifetime name]
  | .type ty => match ty.bareArgument with
    | some ident => [.argument ident]
    | none => ty.occurrences
  | .const expr => [.constant expr]
  | .assocType _ generics ty => (namesOfArgs generics).map .skipped ++ ty.occurrences
  | .assocConst _ generics value => (namesOfArgs generics ++ value).map .skipped
  | .constraint _ generics bounds => (namesOfArgs generics).map .skipped ++ occurrencesOfBounds bounds

def TypeParamBound.occurrences : TypeParamBound → List Occurrence
  | .trait lifetimes path => path.occurrences.flatMap (Occurrence.under lifetimes)
  | .lifetime name => [.skipped (.lifetime name)]
  | .preciseCapture tokens | .verbatim tokens => tokens.map .skipped

def occurrencesOfTypes : List SynType → List Occurrence
  | [] => []
  | ty :: tys => ty.occurrences ++ occurrencesOfTypes tys

/-- The first segment is the head of the path, or an item like the others. -/
def occurrencesOfSegments : Bool → List PathSegment → List Occurrence
  | _, [] => []
  | isHead, .mk ident arguments :: segments =>
    (if isHead then .head ident else .item ident) :: (arguments.occurrences ++ occurrencesOfSegments false segments)

def occurrencesOfArgs : List GenericArgument → List Occurrence
  | [] => []
  | arg :: args => arg.occurrences ++ occurrencesOfArgs args

def occurrencesOfBounds : List TypeParamBound → List Occurrence
  | [] => []
  | bound :: bounds => bound.occurrences ++ occurrencesOfBounds bounds
end

/-! ## The walk reads the occurrences -/

def GenericContext.reads (ctx : GenericContext) : Occurrence → Bool
  | .head ident | .item ident | .argument ident => ctx.hasTypeParam ident
  | .lifetime name | .boundLifetime name => ctx.hasLifetimeParam name
  | .constant _ => ctx.hasConstParams
  | .skipped _ => false

section
variable (ctx : GenericContext)

theorem reads_skipped (names : List GenericName) : (names.map Occurrence.skipped).any ctx.reads = false := by
  rw [List.any_map, List.any_eq_false]
  exact fun _ _ => Bool.false_ne_true

theorem reads_under (lifetimes : List String) (o : Occurrence) : (o.under lifetimes).any ctx.reads = ctx.reads o := by
  cases o with
  | lifetime name =>
    rw [Occurrence.under]
    split <;> exact Bool.or_false _
  | skipped name => exact reads_skipped ctx _
  | head _ | item _ | argument _ | boundLifetime _ | constant _ => exact Bool.or_false _

/-- The check of a bare parameter adds nothing to the walk over the segments. -/
theorem isBareTypeParam_or (path : SynPath) :
    (isBareTypeParam ctx path || path.occurrences.any ctx.reads) = path.occurrences.any ctx.reads := by
  rw [Bool.or_eq_right_iff_imp]
  intro h
  match path, h with
  | .mk leadingColon [.mk ident .none], h =>
    have hident : ctx.hasTypeParam ident = true := h
    cases leadingColon <;>
      simp [SynPath.occurrences, occurrencesOfSegments, PathArguments.occurrences, GenericContext.reads, hident]

theorem depends_bareArgument : ∀ {ty : SynType} {ident : String}, ty.bareArgument = some ident →
    typeDependsOnGenerics ctx ty = ctx.hasTypeParam ident
  | .path none (.mk false [.mk name .none]), ident, h => by
    cases h
    simp [typeDependsOnGenerics, isBareTypeParam, pathDependsOnGenerics, anySegmentDepends, argumentsDepend]
  | .group elem, ident, h => by
    rw [typeDependsOnGenerics]
    exact depends_bareArgument h

mutual
theorem typeDepends_eq : ∀ ty : SynType, typeDependsOnGenerics ctx ty = ty.occurrences.any ctx.reads
  | .array elem _ => by
    simp [typeDependsOnGenerics, SynType.occurrences, typeDepends_eq elem, GenericContext.reads, Bool.or_comm]
  | .group elem | .paren elem | .ptr elem | .slice elem => by
    simp only [typeDependsOnGenerics, SynType.occurrences, typeDepends_eq elem]
  | .reference lifetime elem => by
    rw [typeDependsOnGenerics, SynType.occurrences, List.any_append, typeDepends_eq elem]
    cases lifetime <;> rfl
  | .path none path => by
    rw [typeDependsOnGenerics, SynType.occurrences, pathDepends_eq path]
    exact isBareTypeParam_or ctx path
  | .path (some ty) (.mk _ segments) => by
    simp only [typeDependsOnGenerics, SynType.occurrences, typeDepends_eq ty, pathDependsOnGenerics,
      anySegmentDepends_eq false segments, List.any_append]
  | .tuple elems => by simp only [typeDependsOnGenerics, SynType.occurrences, anyTypeDepends_eq elems]
  | .bareFn _ _ _ | .implTrait _ | .mac _ | .traitObject _ | .verbatim _ => by
    rw [typeDependsOnGenerics, SynType.occurrences, reads_skipped]
  | .infer | .never => rfl

theorem pathDepends_eq : ∀ path : SynPath, pathDependsOnGenerics ctx path = path.occurrences.any ctx.reads
  | .mk leadingColon segments => by
    simp only [pathDependsOnGenerics, SynPath.occurrences, anySegmentDepends_eq (!leadingColon) segments]

theorem anySegmentDepends_eq : ∀ (isHead : Bool) (segments : List PathSegment),
    anySegmentDepends ctx segments = (occurrencesOfSegments isHead segments).any ctx.reads
  | _, [] => rfl
  | isHead, .mk ident arguments :: segments => by
    rw [anySegmentDepends, occurrencesOfSegments, List.any_cons, List.any_append, argumentsDepend_eq arguments,
      anySegmentDepends_eq false segments, Bool.or_assoc]
    cases isHead <;> rfl

theorem argumentsDepend_eq : ∀ arguments : PathArguments, argumentsDepend ctx arguments = arguments.occurrences.any ctx.reads
  | .none => rfl
  | .parenthesized _ _ => by rw [argumentsDepend, PathArguments.occurrences, reads_skipped]
  | .angleBracketed args => by simp only [argumentsDepend, PathArguments.occurrences, anyArgumentDepends_eq args]

theorem anyArgumentDepends_eq : ∀ args : List GenericArgument,
    anyArgumentDepends ctx args = (occurrencesOfArgs args).any ctx.reads
  | [] => rfl
  | arg :: args => by
    simp only [anyArgumentDepends, occurrencesOfArgs, argumentDepends_eq arg, anyArgumentDepends_eq args, List.any_append]

theorem argumentDepends_eq : ∀ arg : GenericArgument,
    genericArgumentDependsOnGenerics ctx arg = arg.occurrences.any ctx.reads
  | .lifetime _ | .const _ => by simp [genericArgumentDependsOnGenerics, GenericArgument.occurrences, GenericContext.reads]
  | .type ty => by
    have hty := typeDepends_eq ty
    rw [genericArgumentDependsOnGenerics, GenericArgument.occurrences]
    cases hbare : ty.bareArgument with
    | none => exact hty
    | some ident =>
      rw [depends_bareArgument ctx hbare]
      exact (Bool.or_false _).symm
  | .assocType _ _ ty => by
    simp only [genericArgumentDependsOnGenerics, GenericArgument.occurrences, typeDepends_eq ty, List.any_append,
      reads_skipped, Bool.false_or]
  | .constraint _ _ bounds => by
    simp only [genericArgumentDependsOnGenerics, GenericArgument.occurrences, anyBoundDepends_eq bounds, List.any_append,
      reads_skipped, Bool.false_or]
  | .assocConst _ _ _ => by rw [genericArgumentDependsOnGenerics, GenericArgument.occurrences, reads_skipped]

theorem anyBoundDepends_eq : ∀ bounds : List TypeParamBound,
    anyBoundDepends ctx bounds = (occurrencesOfBounds bounds).any ctx.reads
  | [] => rfl
  | bound :: bounds => by
    simp only [anyBoundDepends, occurrencesOfBounds, boundDepends_eq bound, anyBoundDepends_eq bounds, List.any_append]

theorem boundDepends_eq : ∀ bound : TypeParamBound, boundDepends ctx bound = bound.occurrences.any ctx.reads
  | .trait lifetimes path => by
    rw [boundDepends, TypeParamBound.occurrences, List.any_flatMap, pathDepends_eq path]
    exact congrArg (List.any path.occurrences) (funext fun o => (reads_under ctx lifetimes o).symm)
  | .lifetime _ => rfl
  | .preciseCapture _ | .verbatim _ => by rw [boundDepends, TypeParamBound.occurrences, reads_skipped]

theorem anyTypeDepends_eq : ∀ tys : List SynType, anyTypeDepends ctx tys = (occurrencesOfTypes tys).any ctx.reads
  | [] => rfl
  | ty :: tys => by
    simp only [anyTypeDepends, occurrencesOfTypes, typeDepends_eq ty, anyTypeDepends_eq tys, List.any_append]
end

end

/-! ## The names of a type are those of its occurrences -/

def Occurrence.names : Occurrence → List GenericName
  | head ident => [.ident ident]
  | argument ident => [.argument ident]
  | lifetime name => [.lifetime name]
  | constant names => names
  | skipped name => [name]
  | item _ | boundLifetime _ => []

def occurringNames (os : List Occurrence) : List GenericName := os.flatMap Occurrence.names

theorem occurringNames_append (os os' : List Occurrence) :
    occurringNames (os ++ os') = occurringNames os ++ occurringNames os' := List.flatMap_append

theorem occurringNames_skipped (names : List GenericName) : occurringNames (names.map .skipped) = names := by
  rw [occurringNames, List.flatMap_map]
  exact List.flatMap_singleton' names

theorem unbound_append (lifetimes : List String) (ns ns' : List GenericName) :
    unbound lifetimes (ns ++ ns') = unbound lifetimes ns ++ unbound lifetimes ns' := List.filter_append ns ns'

theorem occurringNames_under (lifetimes : List String) (os : List Occurrence) :
    occurringNames (os.flatMap (Occurrence.under lifetimes)) = unbound lifetimes (occurringNames os) := by
  have hone : ∀ o : Occurrence, occurringNames (o.under lifetimes) = unbound lifetimes o.names := by
    intro o
    cases o with
    | lifetime name =>
      rw [Occurrence.under]
      by_cases hbound : name ∈ lifetimes
      · simp [hbound, occurringNames, Occurrence.names, unbound]
      · have hfree : ∀ l ∈ lifetimes, name ≠ l := fun l hl h => hbound (h ▸ hl)
        have hkept : unbound lifetimes [.lifetime name] = [.lifetime name] := by
          refine List.filter_eq_self.mpr fun n hn => ?_
          rw [List.mem_singleton.mp hn, List.all_eq_true]
          exact fun l hl => decide_eq_true fun h => hfree l hl (GenericName.lifetime.inj h)
        simp [hbound, occurringNames, Occurrence.names, hkept]
    | skipped name => exact occurringNames_skipped _
    | constant names => exact List.append_nil _
    | head _ | item _ | argument _ | boundLifetime _ => simp [occurringNames, Occurrence.under, Occurrence.names, unbound]
  induction os with
  | nil => rfl
  | cons o os ih =>
    rw [List.flatMap_cons, occurringNames_append, hone, ih, ← unbound_append]
    rfl

mutual
theorem SynType.names_eq : ∀ ty : SynType, ty.names = occurringNames ty.occurrences
  | .array elem len => by
    rw [SynType.names, SynType.occurrences, occurringNames_append, elem.names_eq]
    exact congrArg (_ ++ ·) (List.append_nil len).symm
  | .group elem | .paren elem | .ptr elem | .slice elem => by
    simp only [SynType.names, SynType.occurrences, elem.names_eq]
  | .reference lifetime elem => by
    rw [SynType.names, SynType.occurrences, occurringNames_append, elem.names_eq]
    cases lifetime <;> rfl
  | .path none path => by rw [SynType.names, SynType.occurrences, path.names_eq]
  | .path (some ty) (.mk _ segments) => by
    rw [SynType.names, SynType.occurrences, occurringNames_append, ty.names_eq, itemNames_eq segments]
  | .tuple elems => by rw [SynType.names, SynType.occurrences, typesNames_eq elems]
  | .bareFn _ _ _ | .implTrait _ | .mac _ | .traitObject _ | .verbatim _ => by
    rw [SynType.names, SynType.occurrences, occurringNames_skipped]
  | .infer | .never => rfl

theorem SynPath.names_eq : ∀ path : SynPath, path.names = occurringNames path.occurrences
  | .mk true segments => itemNames_eq segments
  | .mk false [] => rfl
  | .mk false (.mk ident arguments :: segments) => by
    have htail := congrArg₂ (· ++ ·) arguments.names_eq (itemNames_eq segments)
    rw [← occurringNames_append] at htail
    exact congrArg (GenericName.ident ident :: ·) htail

/-- Segments that are no head mention only what their arguments do. -/
theorem itemNames_eq : ∀ segments : List PathSegment,
    namesOfSegments segments = occurringNames (occurrencesOfSegments false segments)
  | [] => rfl
  | .mk _ arguments :: segments => by
    rw [namesOfSegments, arguments.names_eq, itemNames_eq segments, ← occurringNames_append]
    rfl

theorem PathArguments.names_eq : ∀ arguments : PathArguments, arguments.names = occurringNames arguments.occurrences
  | .none => rfl
  | .parenthesized _ _ => by rw [PathArguments.names, PathArguments.occurrences, occurringNames_skipped]
  | .angleBracketed args => by rw [PathArguments.names, PathArguments.occurrences, argsNames_eq args]

theorem argsNames_eq : ∀ args : List GenericArgument, namesOfArgs args = occurringNames (occurrencesOfArgs args)
  | [] => rfl
  | arg :: args => by rw [namesOfArgs, occurrencesOfArgs, occurringNames_append, arg.names_eq, argsNames_eq args]

theorem GenericArgument.names_eq : ∀ arg : GenericArgument, arg.names = occurringNames arg.occurrences
  | .lifetime _ => rfl
  | .const expr => (List.append_nil expr).symm
  | .type ty => by
    have hty := ty.names_eq
    rw [GenericArgument.names, GenericArgument.occurrences]
    cases ty.bareArgument with
    | none => exact hty
    | some ident => rfl
  | .assocType _ _ ty => by
    rw [GenericArgument.names, GenericArgument.occurrences, occurringNames_append, occurringNames_skipped, ty.names_eq]
  | .constraint _ _ bounds => by
    rw [GenericArgument.names, GenericArgument.occurrences, occurringNames_append, occurringNames_skipped, boundsNames_eq bounds]
  | .assocConst _ _ _ => by rw [GenericArgument.names, GenericArgument.occurrences, occurringNames_skipped]

theorem boundsNames_eq : ∀ bounds : List TypeParamBound, namesOfBounds bounds = occurringNames (occurrencesOfBounds bounds)
  | [] => rfl
  | bound :: bounds => by
    rw [namesOfBounds, occurrencesOfBounds, occurringNames_append, bound.names_eq, boundsNames_eq bounds]

theorem TypeParamBound.names_eq : ∀ bound : TypeParamBound, bound.names = occurringNames bound.occurrences
  | .trait lifetimes path => by
    rw [TypeParamBound.names, TypeParamBound.occurrences, occurringNames_under, path.names_eq]
  | .lifetime _ => rfl
  | .preciseCapture _ | .verbatim _ => by rw [TypeParamBound.names, TypeParamBound.occurrences, occurringNames_skipped]

theorem typesNames_eq : ∀ tys : List SynType, namesOfTypes tys = occurringNames (occurrencesOfTypes tys)
  | [] => rfl
  | ty :: tys => by rw [namesOfTypes, occurrencesOfTypes, occurringNames_append, ty.names_eq, typesNames_eq tys]
end

/-! ## Parameters -/

/-- A name is looked up as the parameter; `types` are the types in scope around the struct. -/
def GenericName.RefersTo (types : String → Prop) : GenericName → GenericParam → Prop
  | .ident name, .type param => name = param
  | .argument name, .type param => name = param
  | .argument name, .const param => name = param ∧ ¬types name
  | .value name, .const param => name = param
  | .lifetime name, .lifetime param => name = param
  | _, _ => False

namespace GenericContext

theorem foldl_push (params : List GenericParam) : ∀ ctx : GenericContext,
    (∀ i, i ∈ (params.foldl push ctx).typeParams ↔ i ∈ ctx.typeParams ∨ .type i ∈ params) ∧
    (∀ i, i ∈ (params.foldl push ctx).constParams ↔ i ∈ ctx.constParams ∨ .const i ∈ params) ∧
    ∀ l, l ∈ (params.foldl push ctx).lifetimeParams ↔ l ∈ ctx.lifetimeParams ∨ .lifetime l ∈ params := by
  induction params with
  | nil => simp
  | cons g params ih =>
    intro ctx
    obtain ⟨ht, hc, hl⟩ := ih (ctx.push g)
    simp only [List.foldl_cons, ht, hc, hl]
    cases g <;> simp [push, or_assoc]

variable (params : List GenericParam)

theorem hasTypeParam_new (i : String) : (new params).hasTypeParam i = true ↔ .type i ∈ params := by
  simpa [hasTypeParam, new] using (foldl_push params ⟨[], [], []⟩).1 i

end GenericContext

section
variable {params : List GenericParam} {types : String → Prop} {ty : SynType}

end

/-! ## The eager assertions -/

theorem TerminalLeafSpec.walkTerminalLeaves (t : TerminalLeafSpec) : t.leaf.walkTerminalLeaves = [t.leaf] := by
  obtain ⟨leaf, hleaf⟩ := t
  cases leaf with
  | tuple _ => cases hleaf
  | _ => rfl

section
variable {syn : TypePath → SynType} {params : List GenericParam} {pick : LeafSpec → Option TypePath}

end

theorem mem_emit {a : EagerAssert} {runtime core : List SynPath} {types : List TypePath} :
    a ∈ EagerAssert.emit runtime core types ↔ a = ⟨runtime, core, types⟩ ∧ ∃ ty, ty ∈ types := by
  cases types <;> simp [EagerAssert.emit]

section
variable (syn : TypePath → SynType) (types : String → Prop) (params : List GenericParam)

end

end DfDerive
