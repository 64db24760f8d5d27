/-
  DfDerive.Derived.Requirements — the bounds of an accepted struct.

  - `bounds_exact`: the generated impls are bounded by what their columns call and by nothing
    else, and what they compute depends on nothing that is not bounded.
  - `nested_bounds_used`: of the nested types, all that are bounded are used.
  - `eagerAsserts_predicates`: the assertions at module level are those of the `where`
    predicates in which no parameter of the struct occurs.
-/

import DfDerive.Codegen.BoundsProofs
import DfDerive.Derived.Origins

namespace DfDerive

open Lib

theorem LeafSpec.origin_of_param {leaf : LeafSpec} {ident : TypePath} (h : leaf.param = some ident) :
    leaf.origin = some (.generic ident) := by
  unfold LeafSpec.param at h
  split at h <;> cases h <;> rfl

/-- The parameters in the columns of an accepted struct are declared by it. -/
theorem InputMeans.paramsOf {text : FieldType → TypePath} {input : WrittenInput} {d : DeriveInput} (h : InputMeans text input d)
    {ir : StructIR} (hir : parseToIr d = .ok ir) : ir.ParamsOf input.generics := by
  intro c hc ident hparam
  obtain ⟨_, -, _, -, horigin, -⟩ := h.origins hir hc (LeafSpec.origin_of_param hparam)
  have hmem : ident ∈ (GenericContext.new input.generics).typeParams := horigin
  rw [← GenericContext.hasTypeParam_new, GenericContext.hasTypeParam, List.any_eq_true]
  exact ⟨ident, hmem, beq_self_eq_true ident⟩

/-! ## Agreement on what is bounded -/

/-- The environments agree on everything that is bounded. The types the derive knows itself
    bring their `Display` and `Decimal128Encode` without a bound, and `chrono` is one crate. -/
structure BoundedAgree (b : ImplBounds) (traits : RuntimeTraitPaths) (ir : StructIR) (env env' : Env) : Prop where
  impl : ∀ ty, b.Requires ty traits.toDataframe → b.Requires ty traits.columnar → env.impl ty = env'.impl ty
  display : ((∃ ty, b.Requires ty displayBound) ∨ ∃ c ∈ ir.columns, c.leafSpec.leaf = .asString .inherent) →
    env.traits.display = env'.traits.display
  asRef : (∃ ty, b.Requires ty asRefStrBound) → env.traits.asRef = env'.traits.asRef
  mantissa : ((∃ ty, b.Requires ty traits.decimal128Encode) ∨
      ∃ c ∈ ir.columns, ∃ precision scale, c.leafSpec.leaf = .decimal precision scale .runtimeKnown) →
    env.traits.mantissa = env'.traits.mantissa
  chrono : env.traits.chrono = env'.traits.chrono

/-- Agreement on what the columns need is enough. -/
theorem BoundedAgree.column {b : ImplBounds} {traits : RuntimeTraitPaths} {ir : StructIR} {env env' : Env}
    (h : BoundedAgree b traits ir env env')
    (hb : ∀ {ty trait}, b.Requires ty trait ↔ ∃ c ∈ ir.columns, c.leafSpec.leaf.Needs traits ty trait) {c : ColumnIR}
    (hc : c ∈ ir.columns) : env.AgreeOn env' c.leafSpec.route := by
  have hneeds : ∀ {ty trait}, c.leafSpec.leaf.Needs traits ty trait → b.Requires ty trait := fun hneeds => hb.mpr ⟨c, hc, hneeds⟩
  have hdisplay : c.leafSpec.leaf = .asString .inherent → env.traits.display = env'.traits.display := fun hleaf =>
    h.display (.inr ⟨c, hc, hleaf⟩)
  have hmantissa : ∀ precision scale, c.leafSpec.leaf = .decimal precision scale .runtimeKnown →
      env.traits.mantissa = env'.traits.mantissa := fun precision scale hleaf =>
    h.mantissa (.inr ⟨c, hc, precision, scale, hleaf⟩)
  generalize c.leafSpec = t at hneeds hdisplay hmantissa
  obtain ⟨leaf, hleaf⟩ := t
  cases leaf with
  | struct ty => exact h.impl ty (hneeds (.toDataframe (.inl rfl))) (hneeds (.columnar (.inl rfl)))
  | generic ident => exact h.impl ident (hneeds (.toDataframe (.inr rfl))) (hneeds (.columnar (.inr rfl)))
  | asString base =>
    cases base with
    | inherent => exact hdisplay rfl
    | struct ty => exact h.display (.inl ⟨ty, hneeds (.display (.inl rfl))⟩)
    | generic ident => exact h.display (.inl ⟨ident, hneeds (.display (.inr rfl))⟩)
  | asStr base =>
    cases base with
    | struct ty => exact h.asRef ⟨ty, hneeds (.asRefStr (.inl rfl))⟩
    | generic ident => exact h.asRef ⟨ident, hneeds (.asRefStr (.inr rfl))⟩
    | string | borrowedStr | cowStr => trivial
  | decimal precision scale backend =>
    cases backend with
    | runtimeKnown => exact hmantissa _ _ rfl
    | struct ty => exact h.mantissa (.inl ⟨ty, hneeds (.decimal128Encode (.inl rfl))⟩)
    | generic ident => exact h.mantissa (.inl ⟨ident, hneeds (.decimal128Encode (.inr rfl))⟩)
  | tuple elements => cases hleaf
  | dateTime | naiveDateTime | duration => exact h.chrono
  | numeric | string | bool | naiveDate | naiveTime | binary => trivial

/-! ## The bounds -/

/-- A trait is bounded on a type exactly when a column calls it there; and environments that
    agree on what is bounded have the same implementation. -/
theorem bounds_exact (crates : Crates) (text : FieldType → TypePath) (input : WrittenInput) {config : MacroConfig}
    {ir : StructIR} (h : toDataframeDerive crates text input = .ok (config, ir)) :
    (∀ ty trait, (implPartsWithBounds input.generics config.traits ir).Requires ty trait ↔
      ∃ c ∈ ir.columns, c.leafSpec.leaf.Needs config.traits ty trait) ∧
    ∀ env env' typeName,
      BoundedAgree (implPartsWithBounds input.generics config.traits ir) config.traits ir env env' →
        generateImpl env ir typeName = generateImpl env' ir typeName := by
  obtain ⟨-, d, hmeans, hir⟩ := toDataframeDerive_ok.mp h
  have hparams := hmeans.paramsOf hir
  refine ⟨fun ty trait => requires_iff hparams, fun env env' typeName hagree => ?_⟩
  exact generateImpl_agree (fun c hc => hagree.column (requires_iff hparams) hc) typeName

theorem bounds_exact_pair :
    ∃ config ir, toDataframeDerive ⟨fun _ => none, none⟩ lastName pairInput = .ok (config, ir) ∧
      (∀ ty trait, (implPartsWithBounds pairInput.generics config.traits ir).Requires ty trait ↔
        ∃ c ∈ ir.columns, c.leafSpec.leaf.Needs config.traits ty trait) ∧
      ∀ env env' typeName,
        BoundedAgree (implPartsWithBounds pairInput.generics config.traits ir) config.traits ir env env' →
          generateImpl env ir typeName = generateImpl env' ir typeName := by
  obtain ⟨config, ir, h⟩ := pairInput_accepted
  exact ⟨config, ir, h, bounds_exact _ _ _ h⟩

theorem route_nested_iff {t : TerminalLeafSpec} {ty : TypePath} :
    (∃ nested, t.route = .nested nested ∧ nested.ty = ty) ↔ t.leaf.nestedType = some ty ∨ t.leaf.nestedParam = some ty := by
  obtain ⟨leaf, hleaf⟩ := t
  constructor
  · rintro ⟨nested, hroute, rfl⟩
    cases leaf with
    | struct ty =>
      cases hroute
      exact .inl rfl
    | generic ident =>
      cases hroute
      exact .inr rfl
    | tuple elements => cases hleaf
    | _ => cases hroute
  · intro h
    cases leaf with
    | struct ty' =>
      rcases h with h | h
      · cases h
        exact ⟨_, rfl, rfl⟩
      · cases h
    | generic ident =>
      rcases h with h | h
      · cases h
      · cases h
        exact ⟨_, rfl, rfl⟩
    | _ => rcases h with h | h <;> cases h

/-- The implementation depends on exactly the nested types, whose bounds are the two it calls:
    for any other type, what it implements makes no difference. -/
theorem nested_bounds_used (ir : StructIR) (typeName : String) (ty : TypePath) :
    (ty ∈ (collectGenericRequirements ir).nestedTypes ∨ ty ∈ (collectGenericRequirements ir).nestedParams) ↔
      ∃ env env' : Env, env.traits = env'.traits ∧ (∀ t, t ≠ ty → env.impl t = env'.impl t) ∧
        generateImpl env ir typeName ≠ generateImpl env' ir typeName := by
  have hrole : (ty ∈ (collectGenericRequirements ir).nestedTypes ∨ ty ∈ (collectGenericRequirements ir).nestedParams) ↔
      ∃ c ∈ ir.columns, ∃ nested, c.leafSpec.route = .nested nested ∧ nested.ty = ty := by
    simp only [nestedTypes_eq, nestedParams_eq, StructIR.mem_inRole, route_nested_iff, ← exists_or, ← and_or_left]
  rw [hrole]
  constructor
  · rintro ⟨c, hc, nested, hroute, hty⟩
    exact nested_used hc hroute hty typeName
  · rintro ⟨env, env', htraits, himpl, hne⟩
    by_contra hnone
    -- no column asks the type, so the environments agree on all of them
    refine hne (generateImpl_agree (fun c hc => ?_) typeName)
    cases hroute : c.leafSpec.route with
    | nested nested => exact himpl nested.ty fun hty => hnone ⟨c, hc, nested, hroute, hty⟩
    | primitive leaf =>
      show env.traits.AgreeOn env'.traits leaf
      rw [htraits]
      exact Traits.AgreeOn.refl _ leaf

/-- For each bound the asserted types are those of the `where` predicates in which no parameter
    is found, in the same order and each once; and a type is asserted with exactly the traits
    that the predicates ask of it. -/
theorem eagerAsserts_predicates (syn : TypePath → SynType) (generics : List GenericParam) (traits : RuntimeTraitPaths)
    (ir : StructIR) :
    let reqs := collectGenericRequirements ir
    let closed := List.filter fun ty => !typeDependsOnGenerics (.new generics) (syn ty)
    generateEagerAsserts syn generics traits ir =
        EagerAssert.emit [traits.toDataframe, traits.columnar] [] (closed reqs.nestedTypes) ++
          EagerAssert.emit [traits.decimal128Encode] [] (closed reqs.decimalTypes) ++
          EagerAssert.emit [] [asRefStrBound] (closed reqs.asRefStrTypes) ++
          EagerAssert.emit [] [displayBound] (closed reqs.displayTypes) ∧
      (∀ a ∈ generateEagerAsserts syn generics traits ir, a.types.Nodup) ∧
      ∀ ty trait, (∃ a ∈ generateEagerAsserts syn generics traits ir, ty ∈ a.types ∧ trait ∈ a.bounds) ↔
        (ty, trait) ∈ (implPartsWithBounds generics traits ir).predicates ∧
          typeDependsOnGenerics (.new generics) (syn ty) = false := by
  intro reqs closed
  have heq : generateEagerAsserts syn generics traits ir =
      EagerAssert.emit [traits.toDataframe, traits.columnar] [] (closed reqs.nestedTypes) ++
        EagerAssert.emit [traits.decimal128Encode] [] (closed reqs.decimalTypes) ++
        EagerAssert.emit [] [asRefStrBound] (closed reqs.asRefStrTypes) ++
        EagerAssert.emit [] [displayBound] (closed reqs.displayTypes) := by
    simp only [generateEagerAsserts, collectNestedAsserts, collectDecimalAsserts, collectAsRefStrAsserts, collectDisplayAsserts,
      collectAsserts_types, reqs, closed, nestedTypes_eq, decimalTypes_eq, asRefStrTypes_eq, displayTypes_eq]
  have hrole : ∀ pick, (closed (ir.inRole pick)).Nodup := fun pick => (nodup_eraseDups _).filter _
  have hasserted : ∀ {runtime core : List SynPath} {types : List TypePath} {ty : TypePath} {trait : SynPath},
      (∃ a ∈ EagerAssert.emit runtime core (closed types), ty ∈ a.types ∧ trait ∈ a.bounds) ↔
        (ty ∈ types ∧ trait ∈ runtime ++ core) ∧ typeDependsOnGenerics (.new generics) (syn ty) = false := by
    intro runtime core types ty trait
    have hclosed : ty ∈ closed types ↔ ty ∈ types ∧ typeDependsOnGenerics (.new generics) (syn ty) = false := by
      simp [closed]
    constructor
    · rintro ⟨a, ha, hty, htrait⟩
      obtain ⟨rfl, -⟩ := mem_emit.mp ha
      exact ⟨⟨(hclosed.mp hty).1, htrait⟩, (hclosed.mp hty).2⟩
    · rintro ⟨⟨hty, htrait⟩, hfree⟩
      have hmem := hclosed.mpr ⟨hty, hfree⟩
      exact ⟨_, mem_emit.mpr ⟨rfl, ty, hmem⟩, hmem, htrait⟩
  refine ⟨heq, ?_, ?_⟩
  · rw [heq]
    simp only [reqs, nestedTypes_eq, decimalTypes_eq, asRefStrTypes_eq, displayTypes_eq, List.mem_append, mem_emit]
    rintro a (((⟨rfl, -⟩ | ⟨rfl, -⟩) | ⟨rfl, -⟩) | ⟨rfl, -⟩) <;> exact hrole _
  · intro ty trait
    have hpredicates : (ty, trait) ∈ (implPartsWithBounds generics traits ir).predicates ↔ _ := mem_predicates
    rw [heq, hpredicates]
    -- the helpers come in another order than the predicates
    have horder : ∀ nested decimal asRef display : Prop,
        ((nested ∨ decimal) ∨ asRef) ∨ display ↔ nested ∨ asRef ∨ display ∨ decimal := by
      intros
      tauto
    simp only [List.mem_append, or_and_right, exists_or, hasserted, reqs, nestedTypes_eq, decimalTypes_eq, asRefStrTypes_eq,
      displayTypes_eq, List.append_nil, List.nil_append, List.mem_cons, List.not_mem_nil, or_false, ← horder]

end DfDerive
