/-
  DfDerive.Codegen.BoundsProofs — the bounds are the ones the generated code needs.

  A type needs the traits its columns call on it (`LeafSpec.Needs`). These are pushed on it,
  and no others (`requires_iff`). Generated code asks nothing but of what is bounded
  (`generateImpl_agree`), and what is bounded is used: every nested type is asked
  (`nested_used`), and the leaves with the other three bounds are those whose encoding the
  trait decides (`asRef_used`, `display_used`, `mantissa_used`).
-/

import DfDerive.Codegen.Bounds
import DfDerive.Codegen.Columnar
import DfDerive.Codegen.LeafValue
import DfDerive.Codegen.TypeDepsProofs
import DfDerive.Lib.FirstSeen

namespace DfDerive

open Lib

/-! ## Roles -/

namespace LeafSpec

def nestedParam : LeafSpec → Option TypePath
  | .generic ident => some ident
  | _ => none

def decimalBackendParam : LeafSpec → Option TypePath
  | .decimal _ _ (.generic ident) => some ident
  | _ => none

def asRefStrParam : LeafSpec → Option TypePath
  | .asStr (.generic ident) => some ident
  | _ => none

def displayParam : LeafSpec → Option TypePath
  | .asString (.generic ident) => some ident
  | _ => none

/-- The column of the leaf calls the trait on the type. -/
inductive Needs (traits : RuntimeTraitPaths) : LeafSpec → TypePath → SynPath → Prop where
  | toDataframe {leaf : LeafSpec} {ty : TypePath} (nested : leaf.nestedType = some ty ∨ leaf.nestedParam = some ty) :
      Needs traits leaf ty traits.toDataframe
  | columnar {leaf : LeafSpec} {ty : TypePath} (nested : leaf.nestedType = some ty ∨ leaf.nestedParam = some ty) :
      Needs traits leaf ty traits.columnar
  | asRefStr {leaf : LeafSpec} {ty : TypePath} (asStr : leaf.asRefStrType = some ty ∨ leaf.asRefStrParam = some ty) :
      Needs traits leaf ty asRefStrBound
  | display {leaf : LeafSpec} {ty : TypePath} (asString : leaf.displayType = some ty ∨ leaf.displayParam = some ty) :
      Needs traits leaf ty displayBound
  | decimal128Encode {leaf : LeafSpec} {ty : TypePath}
      (decimal : leaf.decimalBackendType = some ty ∨ leaf.decimalBackendParam = some ty) :
      Needs traits leaf ty traits.decimal128Encode

end LeafSpec

/-- The types the leaves of a struct have in a role, each once. -/
def StructIR.inRole (ir : StructIR) (pick : LeafSpec → Option TypePath) : List TypePath :=
  (ir.columns.filterMap fun c => pick c.leafSpec.leaf).eraseDups

theorem StructIR.mem_inRole {ir : StructIR} {pick : LeafSpec → Option TypePath} {ty : TypePath} :
    ty ∈ ir.inRole pick ↔ ∃ c ∈ ir.columns, pick c.leafSpec.leaf = some ty := by
  rw [inRole, List.mem_eraseDups, List.mem_filterMap]

theorem pushUnique_eq (out : List TypePath) (ty : TypePath) : pushUnique out ty = pushNew out ty := by
  rw [pushUnique, pushNew]
  by_cases hmem : ty ∈ out
  · rw [if_pos hmem, if_pos (by simpa using hmem)]
  · rw [if_neg hmem, if_neg (by simpa using hmem)]

theorem pushUniqueType_eq (out : List TypePath) (ty : TypePath) : pushUniqueType out ty = pushNew out ty :=
  pushUnique_eq out ty

/-! ## The requirements -/

/-- A list that gains what `pick` finds holds the types in that role. -/
theorem collectGenericRequirements_list (list : GenericRequirements → List TypePath) (pick : LeafSpec → Option TypePath)
    (hempty : list .default = [])
    (hstep : ∀ reqs leaf, list (reqs.collect leaf) = (pick leaf).elim (list reqs) (pushNew (list reqs))) (ir : StructIR) :
    list (collectGenericRequirements ir) = ir.inRole pick := by
  have hfold : ∀ (columns : List ColumnIR) (reqs : GenericRequirements),
      list (columns.foldl (fun reqs column => collectLeafRequirements column.leafSpec.leaf reqs) reqs) =
        columns.foldl (fun out column => (pick column.leafSpec.leaf).elim out (pushNew out)) (list reqs) := by
    intro columns
    induction columns with
    | nil => exact fun _ => rfl
    | cons column columns ih =>
      intro reqs
      rw [List.foldl_cons, List.foldl_cons, ih, collectLeafRequirements, TerminalLeafSpec.walkTerminalLeaves,
        List.foldl_cons, List.foldl_nil, hstep]
  rw [collectGenericRequirements, hfold, hempty, foldl_pick (fun c : ColumnIR => pick c.leafSpec.leaf), foldl_pushNew]
  rfl

section
variable (ir : StructIR)

theorem nestedParams_eq : (collectGenericRequirements ir).nestedParams = ir.inRole LeafSpec.nestedParam :=
  collectGenericRequirements_list _ _ rfl (fun reqs leaf => by
    unfold GenericRequirements.collect
    split <;> simp [LeafSpec.nestedParam, pushUnique_eq]) ir

theorem nestedTypes_eq : (collectGenericRequirements ir).nestedTypes = ir.inRole LeafSpec.nestedType :=
  collectGenericRequirements_list _ _ rfl (fun reqs leaf => by
    unfold GenericRequirements.collect
    split <;> simp [LeafSpec.nestedType, pushUniqueType_eq]) ir

theorem decimalParams_eq : (collectGenericRequirements ir).decimalParams = ir.inRole LeafSpec.decimalBackendParam :=
  collectGenericRequirements_list _ _ rfl (fun reqs leaf => by
    unfold GenericRequirements.collect
    split <;> simp [LeafSpec.decimalBackendParam, pushUnique_eq]) ir

theorem decimalTypes_eq : (collectGenericRequirements ir).decimalTypes = ir.inRole LeafSpec.decimalBackendType :=
  collectGenericRequirements_list _ _ rfl (fun reqs leaf => by
    unfold GenericRequirements.collect
    split <;> simp [LeafSpec.decimalBackendType, pushUniqueType_eq]) ir

theorem asRefStr_eq : (collectGenericRequirements ir).asRefStr = ir.inRole LeafSpec.asRefStrParam :=
  collectGenericRequirements_list _ _ rfl (fun reqs leaf => by
    unfold GenericRequirements.collect
    split <;> simp [LeafSpec.asRefStrParam, pushUnique_eq]) ir

theorem asRefStrTypes_eq : (collectGenericRequirements ir).asRefStrTypes = ir.inRole LeafSpec.asRefStrType :=
  collectGenericRequirements_list _ _ rfl (fun reqs leaf => by
    unfold GenericRequirements.collect
    split <;> simp [LeafSpec.asRefStrType, pushUniqueType_eq]) ir

theorem displayParams_eq : (collectGenericRequirements ir).displayParams = ir.inRole LeafSpec.displayParam :=
  collectGenericRequirements_list _ _ rfl (fun reqs leaf => by
    unfold GenericRequirements.collect
    split <;> simp [LeafSpec.displayParam, pushUnique_eq]) ir

theorem displayTypes_eq : (collectGenericRequirements ir).displayTypes = ir.inRole LeafSpec.displayType :=
  collectGenericRequirements_list _ _ rfl (fun reqs leaf => by
    unfold GenericRequirements.collect
    split <;> simp [LeafSpec.displayType, pushUniqueType_eq]) ir

end

/-! ## What is pushed -/

/-- The trait is pushed on the type, as a parameter or in the `where` clause. -/
def ImplBounds.Requires (b : ImplBounds) (ty : TypePath) (trait : SynPath) : Prop :=
  (ty, trait) ∈ b.predicates ∨ ∃ bounds, (GenericParam.type ty, bounds) ∈ b.params ∧ trait ∈ bounds

/-- The parameter a leaf is of. -/
def LeafSpec.param : LeafSpec → Option TypePath
  | .generic ident | .asStr (.generic ident) | .asString (.generic ident) | .decimal _ _ (.generic ident) => some ident
  | _ => none

/-- The parameters in the leaves are the struct's own. -/
def StructIR.ParamsOf (ir : StructIR) (generics : List GenericParam) : Prop :=
  ∀ c ∈ ir.columns, ∀ ident, c.leafSpec.leaf.param = some ident → .type ident ∈ generics

theorem containsIdent_eq {items : List TypePath} {ident : TypePath} : containsIdent items ident = true ↔ ident ∈ items := by
  simp [containsIdent]

theorem mem_if {α : Type} {p : Prop} [Decidable p] {xs : List α} {x : α} : x ∈ (if p then xs else []) ↔ p ∧ x ∈ xs := by
  by_cases hp : p <;> simp [hp]

theorem mem_paramBounds {ir : StructIR} {traits : RuntimeTraitPaths} {ident : TypePath} {trait : SynPath} :
    trait ∈ (collectGenericRequirements ir).paramBounds traits (.type ident) ↔
      (ident ∈ ir.inRole LeafSpec.nestedParam ∧ (trait = traits.toDataframe ∨ trait = traits.columnar)) ∨
      (ident ∈ ir.inRole LeafSpec.decimalBackendParam ∧ trait = traits.decimal128Encode) ∨
      (ident ∈ ir.inRole LeafSpec.asRefStrParam ∧ trait = asRefStrBound) ∨
      (ident ∈ ir.inRole LeafSpec.displayParam ∧ trait = displayBound) := by
  simp only [GenericRequirements.paramBounds, List.mem_append, mem_if, containsIdent_eq, nestedParams_eq, decimalParams_eq,
    asRefStr_eq, displayParams_eq, List.mem_cons, List.not_mem_nil, or_false, or_assoc]

theorem mem_predicates {ir : StructIR} {traits : RuntimeTraitPaths} {ty : TypePath} {trait : SynPath} :
    (ty, trait) ∈ (collectGenericRequirements ir).predicates traits ↔
      (ty ∈ ir.inRole LeafSpec.nestedType ∧ (trait = traits.toDataframe ∨ trait = traits.columnar)) ∨
      (ty ∈ ir.inRole LeafSpec.asRefStrType ∧ trait = asRefStrBound) ∨
      (ty ∈ ir.inRole LeafSpec.displayType ∧ trait = displayBound) ∨
      (ty ∈ ir.inRole LeafSpec.decimalBackendType ∧ trait = traits.decimal128Encode) := by
  simp only [GenericRequirements.predicates, List.mem_append, List.mem_flatMap, List.mem_map, Prod.mk.injEq, List.mem_cons,
    List.not_mem_nil, or_false, nestedTypes_eq, asRefStrTypes_eq, displayTypes_eq, decimalTypes_eq, or_assoc]
  constructor
  · rintro (⟨_, hmem, h⟩ | ⟨_, hmem, rfl, rfl⟩ | ⟨_, hmem, rfl, rfl⟩ | ⟨_, hmem, rfl, rfl⟩)
    · rcases h with ⟨rfl, rfl⟩ | ⟨rfl, rfl⟩
      · exact .inl ⟨hmem, .inl rfl⟩
      · exact .inl ⟨hmem, .inr rfl⟩
    · exact .inr (.inl ⟨hmem, rfl⟩)
    · exact .inr (.inr (.inl ⟨hmem, rfl⟩))
    · exact .inr (.inr (.inr ⟨hmem, rfl⟩))
  · rintro (⟨hmem, h⟩ | ⟨hmem, rfl⟩ | ⟨hmem, rfl⟩ | ⟨hmem, rfl⟩)
    · refine .inl ⟨ty, hmem, ?_⟩
      rcases h with rfl | rfl
      · exact .inl ⟨rfl, rfl⟩
      · exact .inr ⟨rfl, rfl⟩
    · exact .inr (.inl ⟨ty, hmem, rfl, rfl⟩)
    · exact .inr (.inr (.inl ⟨ty, hmem, rfl, rfl⟩))
    · exact .inr (.inr (.inr ⟨ty, hmem, rfl, rfl⟩))

theorem LeafSpec.param_of_pick {leaf : LeafSpec} {ident : TypePath}
    (h : leaf.nestedParam = some ident ∨ leaf.decimalBackendParam = some ident ∨ leaf.asRefStrParam = some ident ∨
      leaf.displayParam = some ident) : leaf.param = some ident := by
  rcases h with h | h | h | h
  · unfold nestedParam at h
    split at h <;> first | exact h | cases h
  · unfold decimalBackendParam at h
    split at h <;> first | exact h | cases h
  · unfold asRefStrParam at h
    split at h <;> first | exact h | cases h
  · unfold displayParam at h
    split at h <;> first | exact h | cases h

/-- A trait is pushed on a type exactly when a column calls it there. -/
theorem requires_iff {generics : List GenericParam} {traits : RuntimeTraitPaths} {ir : StructIR} (hparams : ir.ParamsOf generics)
    {ty : TypePath} {trait : SynPath} :
    (implPartsWithBounds generics traits ir).Requires ty trait ↔ ∃ c ∈ ir.columns, c.leafSpec.leaf.Needs traits ty trait := by
  have hdeclared : ∀ {pick : LeafSpec → Option TypePath}, (∀ leaf ident, pick leaf = some ident → leaf.param = some ident) →
      ty ∈ ir.inRole pick → GenericParam.type ty ∈ generics := by
    intro pick hpick hmem
    obtain ⟨c, hc, hleaf⟩ := StructIR.mem_inRole.mp hmem
    exact hparams c hc ty (hpick _ _ hleaf)
  constructor
  · rintro (hmem | ⟨bounds, hmem, htrait⟩)
    · rcases mem_predicates.mp hmem with ⟨hrole, h⟩ | ⟨hrole, rfl⟩ | ⟨hrole, rfl⟩ | ⟨hrole, rfl⟩
      · obtain ⟨c, hc, hleaf⟩ := StructIR.mem_inRole.mp hrole
        rcases h with rfl | rfl
        · exact ⟨c, hc, .toDataframe (.inl hleaf)⟩
        · exact ⟨c, hc, .columnar (.inl hleaf)⟩
      · obtain ⟨c, hc, hleaf⟩ := StructIR.mem_inRole.mp hrole
        exact ⟨c, hc, .asRefStr (.inl hleaf)⟩
      · obtain ⟨c, hc, hleaf⟩ := StructIR.mem_inRole.mp hrole
        exact ⟨c, hc, .display (.inl hleaf)⟩
      · obtain ⟨c, hc, hleaf⟩ := StructIR.mem_inRole.mp hrole
        exact ⟨c, hc, .decimal128Encode (.inl hleaf)⟩
    · obtain ⟨param, -, heq⟩ := List.mem_map.mp hmem
      cases heq
      rcases mem_paramBounds.mp htrait with ⟨hrole, h⟩ | ⟨hrole, rfl⟩ | ⟨hrole, rfl⟩ | ⟨hrole, rfl⟩
      · obtain ⟨c, hc, hleaf⟩ := StructIR.mem_inRole.mp hrole
        rcases h with rfl | rfl
        · exact ⟨c, hc, .toDataframe (.inr hleaf)⟩
        · exact ⟨c, hc, .columnar (.inr hleaf)⟩
      · obtain ⟨c, hc, hleaf⟩ := StructIR.mem_inRole.mp hrole
        exact ⟨c, hc, .decimal128Encode (.inr hleaf)⟩
      · obtain ⟨c, hc, hleaf⟩ := StructIR.mem_inRole.mp hrole
        exact ⟨c, hc, .asRefStr (.inr hleaf)⟩
      · obtain ⟨c, hc, hleaf⟩ := StructIR.mem_inRole.mp hrole
        exact ⟨c, hc, .display (.inr hleaf)⟩
  · have hparam : GenericParam.type ty ∈ generics → trait ∈ (collectGenericRequirements ir).paramBounds traits (.type ty) →
        (implPartsWithBounds generics traits ir).Requires ty trait := fun hty htrait =>
      .inr ⟨_, List.mem_map.mpr ⟨.type ty, hty, rfl⟩, htrait⟩
    rintro ⟨c, hc, hneeds⟩
    cases hneeds with
    | toDataframe hleaf =>
      rcases hleaf with hleaf | hleaf
      · exact .inl (mem_predicates.mpr (.inl ⟨StructIR.mem_inRole.mpr ⟨c, hc, hleaf⟩, .inl rfl⟩))
      · have hrole := StructIR.mem_inRole.mpr ⟨c, hc, hleaf⟩
        exact hparam (hdeclared (fun _ _ h => LeafSpec.param_of_pick (.inl h)) hrole)
          (mem_paramBounds.mpr (.inl ⟨hrole, .inl rfl⟩))
    | columnar hleaf =>
      rcases hleaf with hleaf | hleaf
      · exact .inl (mem_predicates.mpr (.inl ⟨StructIR.mem_inRole.mpr ⟨c, hc, hleaf⟩, .inr rfl⟩))
      · have hrole := StructIR.mem_inRole.mpr ⟨c, hc, hleaf⟩
        exact hparam (hdeclared (fun _ _ h => LeafSpec.param_of_pick (.inl h)) hrole)
          (mem_paramBounds.mpr (.inl ⟨hrole, .inr rfl⟩))
    | asRefStr hleaf =>
      rcases hleaf with hleaf | hleaf
      · exact .inl (mem_predicates.mpr (.inr (.inl ⟨StructIR.mem_inRole.mpr ⟨c, hc, hleaf⟩, rfl⟩)))
      · have hrole := StructIR.mem_inRole.mpr ⟨c, hc, hleaf⟩
        exact hparam (hdeclared (fun _ _ h => LeafSpec.param_of_pick (.inr (.inr (.inl h)))) hrole)
          (mem_paramBounds.mpr (.inr (.inr (.inl ⟨hrole, rfl⟩))))
    | display hleaf =>
      rcases hleaf with hleaf | hleaf
      · exact .inl (mem_predicates.mpr (.inr (.inr (.inl ⟨StructIR.mem_inRole.mpr ⟨c, hc, hleaf⟩, rfl⟩))))
      · have hrole := StructIR.mem_inRole.mpr ⟨c, hc, hleaf⟩
        exact hparam (hdeclared (fun _ _ h => LeafSpec.param_of_pick (.inr (.inr (.inr h)))) hrole)
          (mem_paramBounds.mpr (.inr (.inr (.inr ⟨hrole, rfl⟩))))
    | decimal128Encode hleaf =>
      rcases hleaf with hleaf | hleaf
      · exact .inl (mem_predicates.mpr (.inr (.inr (.inr ⟨StructIR.mem_inRole.mpr ⟨c, hc, hleaf⟩, rfl⟩))))
      · have hrole := StructIR.mem_inRole.mpr ⟨c, hc, hleaf⟩
        exact hparam (hdeclared (fun _ _ h => LeafSpec.param_of_pick (.inr (.inl h))) hrole)
          (mem_paramBounds.mpr (.inr (.inl ⟨hrole, rfl⟩)))

/-! ## What the generated code asks -/

/-- The traits agree on what a leaf asks of them. -/
def Traits.AgreeOn (tr tr' : Traits) : PrimitiveLeaf → Prop
  | .asString => tr.display = tr'.display
  | .asStr (.struct _) | .asStr (.generic _) => tr.asRef = tr'.asRef
  | .decimal _ _ => tr.mantissa = tr'.mantissa
  | .dateTime _ | .naiveDateTime _ | .duration _ _ => tr.chrono = tr'.chrono
  | _ => True

theorem Traits.AgreeOn.refl (tr : Traits) (leaf : PrimitiveLeaf) : tr.AgreeOn tr leaf := by
  unfold Traits.AgreeOn
  split <;> trivial

def silentChrono : Chrono := ⟨fun _ _ => 0, fun _ _ => 0, fun _ _ => none, fun _ _ => 0, fun _ _ => none, fun _ _ => none⟩

def silentTraits : Traits := ⟨fun _ => ("", true), fun _ => "", fun _ _ => none, silentChrono⟩

/-- The traits without what a leaf does not ask of them. -/
def Traits.asked (tr : Traits) : PrimitiveLeaf → Traits
  | .asString => { silentTraits with display := tr.display }
  | .asStr (.struct _) | .asStr (.generic _) => { silentTraits with asRef := tr.asRef }
  | .decimal _ _ => { silentTraits with mantissa := tr.mantissa }
  | .dateTime _ | .naiveDateTime _ | .duration _ _ => { silentTraits with chrono := tr.chrono }
  | _ => silentTraits

theorem Traits.AgreeOn.asked {tr tr' : Traits} {leaf : PrimitiveLeaf} (h : tr.AgreeOn tr' leaf) :
    tr.asked leaf = tr'.asked leaf := by
  unfold Traits.AgreeOn at h
  unfold Traits.asked
  split <;> simp_all

theorem buildEncoderWithOptionReceiver_asked (tr : Traits) (leaf : PrimitiveLeaf) (access : Operand → Run Operand)
    (name : String) (shape : WrapperShape) (receiver : Option PrimitiveExprReceiver) :
    buildEncoderWithOptionReceiver ⟨access, name, tr⟩ leaf shape receiver =
      buildEncoderWithOptionReceiver ⟨access, name, tr.asked leaf⟩ leaf shape receiver := by
  cases leaf with
  | asStr base => cases base <;> rfl
  | _ => rfl

theorem buildEncoderWithOptionReceiver_agree {tr tr' : Traits} {leaf : PrimitiveLeaf} (h : tr.AgreeOn tr' leaf)
    (access : Operand → Run Operand) (name : String) (shape : WrapperShape) (receiver : Option PrimitiveExprReceiver) :
    buildEncoderWithOptionReceiver ⟨access, name, tr⟩ leaf shape receiver =
      buildEncoderWithOptionReceiver ⟨access, name, tr'⟩ leaf shape receiver := by
  rw [buildEncoderWithOptionReceiver_asked, h.asked, ← buildEncoderWithOptionReceiver_asked]

theorem buildProjectedVecPrimitive_asked (tr : Traits) (column : TupleParentVecColumn) (leaf : PrimitiveLeaf) :
    buildProjectedVecPrimitive tr column leaf = buildProjectedVecPrimitive (tr.asked leaf) column leaf := by
  cases leaf with
  | asStr base => cases base <;> rfl
  | _ => rfl

theorem buildProjectedVecPrimitive_agree {tr tr' : Traits} {leaf : PrimitiveLeaf} (h : tr.AgreeOn tr' leaf)
    (column : TupleParentVecColumn) : buildProjectedVecPrimitive tr column leaf = buildProjectedVecPrimitive tr' column leaf := by
  rw [buildProjectedVecPrimitive_asked, h.asked, ← buildProjectedVecPrimitive_asked]

/-- The environments agree on what a column asks. -/
def Env.AgreeOn (env env' : Env) (route : TerminalLeafRoute) : Prop :=
  match route with
  | .nested nested => env.impl nested.ty = env'.impl nested.ty
  | .primitive leaf => env.traits.AgreeOn env'.traits leaf

theorem buildColumnEmit_agree {env env' : Env} : ∀ {column : ColumnIR}, env.AgreeOn env' column.leafSpec.route →
    buildColumnEmit env column = buildColumnEmit env' column
  | .field column, h => by
    have h : env.AgreeOn env' column.leafSpec.route := h
    simp only [buildColumnEmit, buildFieldColumnEmit]
    cases hroute : column.leafSpec.route with
    | nested nested =>
      rw [hroute] at h
      simp only [buildNestedEmit, show env.impl nested.ty = env'.impl nested.ty from h]
    | primitive leaf =>
      rw [hroute] at h
      exact congrArg Encoder.emit (buildEncoderWithOptionReceiver_agree h _ _ _ none)
  | .tupleStatic column, h => buildProjected_agree h
  | .tupleParentOption column, h => buildProjected_agree h
  | .tupleParentVec column, h => by
    have h : env.AgreeOn env' column.leafSpec.route := h
    simp only [buildColumnEmit, buildParentVecProjectionEmit]
    cases hroute : column.leafSpec.route with
    | nested nested =>
      rw [hroute] at h
      simp only [show env.impl nested.ty = env'.impl nested.ty from h]
    | primitive leaf =>
      rw [hroute] at h
      simp only [buildProjectedVecPrimitive_agree h]
where
  buildProjected_agree {env env' : Env} {name : String} {leafSpec : TerminalLeafSpec} {shape : WrapperShape}
      {access : Operand → Run Operand} {receiver : Option PrimitiveExprReceiver} (h : env.AgreeOn env' leafSpec.route) :
      buildProjectedStandardEmit env name leafSpec shape access receiver =
        buildProjectedStandardEmit env' name leafSpec shape access receiver := by
    unfold buildProjectedStandardEmit
    cases hroute : leafSpec.route with
    | nested nested =>
      rw [hroute] at h
      simp only [buildNestedEmitWithAccess, show env.impl nested.ty = env'.impl nested.ty from h]
    | primitive leaf =>
      rw [hroute] at h
      simp only [buildEncoderWithOptionReceiver_agree h]

theorem buildSchemaEntries_agree {env env' : Env} {column : ColumnIR} (h : env.AgreeOn env' column.leafSpec.route) :
    buildSchemaEntries env column = buildSchemaEntries env' column := by
  unfold buildSchemaEntries
  cases hroute : column.leafSpec.route with
  | nested nested =>
    rw [hroute] at h
    simp only [show env.impl nested.ty = env'.impl nested.ty from h]
  | primitive leaf => rfl

theorem buildEmptySeries_agree {env env' : Env} {column : ColumnIR} (h : env.AgreeOn env' column.leafSpec.route) :
    buildEmptySeries env column = buildEmptySeries env' column := by
  unfold buildEmptySeries
  cases hroute : column.leafSpec.route with
  | nested nested =>
    rw [hroute] at h
    simp only [show env.impl nested.ty = env'.impl nested.ty from h]
  | primitive leaf => rfl

theorem mapM_agree {α β ε : Type} {f g : α → Except ε β} : ∀ {xs : List α}, (∀ x ∈ xs, f x = g x) → xs.mapM f = xs.mapM g
  | [], _ => rfl
  | x :: xs, h => by
    rw [List.mapM_cons, List.mapM_cons, h x List.mem_cons_self, mapM_agree fun y hy => h y (List.mem_cons_of_mem _ hy)]

/-- Environments that agree on what the columns ask have the same implementation. -/
theorem generateImpl_agree {env env' : Env} {ir : StructIR} (h : ∀ c ∈ ir.columns, env.AgreeOn env' c.leafSpec.route)
    (typeName : String) : generateImpl env ir typeName = generateImpl env' ir typeName := by
  have hschema : schemaFn env ir typeName = schemaFn env' ir typeName := by
    rw [schemaFn, schemaFn, mapM_agree fun c hc => buildSchemaEntries_agree (h c hc)]
  have hempty : emptyDataframeFn env ir typeName = emptyDataframeFn env' ir typeName := by
    rw [emptyDataframeFn, emptyDataframeFn, mapM_agree fun c hc => buildEmptySeries_agree (h c hc)]
  have hbody : columnarMethodBody env ir typeName = columnarMethodBody env' ir typeName := by
    funext items
    rw [columnarMethodBody, columnarMethodBody, hempty, List.map_congr_left fun c hc => buildColumnEmit_agree (h c hc)]
  simp only [generateImpl, hschema, hempty, hbody]

/-! ## Every nested type is asked -/

/-- The error of an implementation by hand that refuses everything. -/
def refusal : Fault := .err (.other "refused")

def refusingImpl : Impl where
  typeName := "Refusing"
  toDataframe _ := .error refusal
  emptyDataframe := .error refusal
  schema := .error refusal
  columnarToDataframe _ := .error refusal
  columnarFromRefs _ := .error refusal

/-- Every type is `()`. -/
def emptyEnv : Env := ⟨silentTraits, fun _ => unitImpl⟩

/-- One type refuses. -/
def brokenEnv (ty : TypePath) : Env := ⟨silentTraits, fun ty' => if ty' = ty then refusingImpl else unitImpl⟩

theorem buildSchemaEntries_emptyEnv (column : ColumnIR) : ∃ entries, buildSchemaEntries emptyEnv column = .ok entries := by
  unfold buildSchemaEntries
  cases column.leafSpec.route with
  | nested nested => exact ⟨_, rfl⟩
  | primitive leaf => exact ⟨_, rfl⟩

theorem buildSchemaEntries_brokenEnv (ty : TypePath) (column : ColumnIR) :
    (∃ entries, buildSchemaEntries (brokenEnv ty) column = .ok entries) ∨
      buildSchemaEntries (brokenEnv ty) column = .error refusal := by
  unfold buildSchemaEntries
  cases column.leafSpec.route with
  | nested nested =>
    by_cases hty : nested.ty = ty
    · refine .inr ?_
      simp only [brokenEnv, if_pos hty]
      rfl
    · refine .inl ⟨[], ?_⟩
      simp only [brokenEnv, if_neg hty]
      rfl
  | primitive leaf => exact .inl ⟨_, rfl⟩

theorem schemaFn_emptyEnv (ir : StructIR) (typeName : String) : schemaFn emptyEnv ir typeName ≠ .error refusal := by
  have hentries : ∃ entries, ir.columns.mapM (buildSchemaEntries emptyEnv) = .ok entries := by
    cases hrun : ir.columns.mapM (buildSchemaEntries emptyEnv) with
    | ok entries => exact ⟨entries, rfl⟩
    | error f =>
      obtain ⟨c, -, hc⟩ := mapM_eq_error hrun
      obtain ⟨entries, hok⟩ := buildSchemaEntries_emptyEnv c
      rw [hc] at hok
      cases hok
  have hunique : ∀ (seen names : List String), validateUniqueColumnNames typeName seen names ≠ .error refusal := by
    intro seen names
    induction names generalizing seen with
    | nil => exact nofun
    | cons name names ih =>
      rw [validateUniqueColumnNames]
      split
      · exact nofun
      · exact ih _
  obtain ⟨entries, hentries⟩ := hentries
  intro h
  rw [schemaFn] at h
  split at h
  · cases h
  · rw [hentries, ok_bind, uniqueNameValidation] at h
    split at h
    · cases hrun : validateUniqueColumnNames typeName [] (entries.flatten.map (·.1)) with
      | error f =>
        rw [hrun, error_bind] at h
        cases h
        exact hunique _ _ hrun
      | ok u =>
        rw [hrun] at h
        cases h
    · cases h

theorem schemaFn_brokenEnv {ir : StructIR} {ty : TypePath} {c : ColumnIR} {nested : NestedLeaf} (hc : c ∈ ir.columns)
    (hroute : c.leafSpec.route = .nested nested) (hty : nested.ty = ty) (typeName : String) :
    schemaFn (brokenEnv ty) ir typeName = .error refusal := by
  have hbroken : buildSchemaEntries (brokenEnv ty) c = .error refusal := by
    unfold buildSchemaEntries
    rw [hroute]
    simp only [brokenEnv, if_pos hty]
    rfl
  have hrun : ir.columns.mapM (buildSchemaEntries (brokenEnv ty)) = .error refusal := by
    cases hrun : ir.columns.mapM (buildSchemaEntries (brokenEnv ty)) with
    | ok entries =>
      obtain ⟨e, he⟩ := mapM_ok_mem hrun c hc
      rw [hbroken] at he
      cases he
    | error f =>
      obtain ⟨c', -, hc'⟩ := mapM_eq_error hrun
      rcases buildSchemaEntries_brokenEnv ty c' with ⟨entries, hok⟩ | herror
      · rw [hc'] at hok
        cases hok
      · rw [hc'] at herror
        cases herror
        rfl
  have hne : ir.columns.isEmpty = false := List.isEmpty_eq_false_iff.mpr (List.ne_nil_of_mem hc)
  rw [schemaFn, hne, hrun]
  rfl

/-- The implementation asks every nested type: there are two environments that differ only
    there, and in what they generate. -/
theorem nested_used {ir : StructIR} {ty : TypePath} {c : ColumnIR} {nested : NestedLeaf} (hc : c ∈ ir.columns)
    (hroute : c.leafSpec.route = .nested nested) (hty : nested.ty = ty) (typeName : String) :
    ∃ env env' : Env, env.traits = env'.traits ∧ (∀ t, t ≠ ty → env.impl t = env'.impl t) ∧
      generateImpl env ir typeName ≠ generateImpl env' ir typeName := by
  refine ⟨emptyEnv, brokenEnv ty, rfl, fun t ht => ?_, fun heq => ?_⟩
  · simp only [emptyEnv, brokenEnv, if_neg ht]
  · have hschema : schemaFn emptyEnv ir typeName = schemaFn (brokenEnv ty) ir typeName := congrArg Impl.schema heq
    rw [schemaFn_brokenEnv hc hroute hty] at hschema
    exact schemaFn_emptyEnv ir typeName hschema

/-! ## Every conversion is used -/

theorem encode_asked (tr : Traits) (leaf : PrimitiveLeaf) (v : Value) :
    leaf.encode tr v = leaf.encode (tr.asked leaf) v := by
  cases leaf with
  | asStr base => cases base <;> rfl
  | _ => rfl

theorem encode_agree {tr tr' : Traits} {leaf : PrimitiveLeaf} (h : tr.AgreeOn tr' leaf) (v : Value) :
    leaf.encode tr v = leaf.encode tr' v := by
  rw [encode_asked, h.asked, ← encode_asked]

/-- A type is bounded by `AsRef<str>` exactly in the leaves whose text `AsRef` gives. -/
theorem asRef_used {t : TerminalLeafSpec} {leaf : PrimitiveLeaf} (h : t.route = .primitive leaf) :
    (∃ ty, t.leaf.asRefStrType = some ty ∨ t.leaf.asRefStrParam = some ty) ↔
      ∃ (tr : Traits) (asRef : Value → String) (v : Value), leaf.encode tr v ≠ leaf.encode { tr with asRef } v := by
  have hused : ∀ base, (∀ (tr : Traits) v, PrimitiveLeaf.encode tr (.asStr base) v = .ok (.str (tr.asRef v))) →
      ∃ (tr : Traits) (asRef : Value → String) (v : Value),
        PrimitiveLeaf.encode tr (.asStr base) v ≠ PrimitiveLeaf.encode { tr with asRef } (.asStr base) v := by
    intro base hbase
    refine ⟨silentTraits, fun _ => "text", .struct [], ?_⟩
    rw [hbase, hbase]
    exact nofun
  obtain ⟨spec, hspec⟩ := t
  cases spec with
  | asStr base =>
    cases h
    cases base with
    | struct ty => exact ⟨fun _ => hused _ fun _ _ => rfl, fun _ => ⟨ty, .inl rfl⟩⟩
    | generic ident => exact ⟨fun _ => hused _ fun _ _ => rfl, fun _ => ⟨ident, .inr rfl⟩⟩
    | string | borrowedStr | cowStr =>
      refine ⟨?_, fun ⟨tr, _, v, hne⟩ => absurd (encode_agree (by trivial) v) hne⟩
      rintro ⟨_, h | h⟩ <;> cases h
  | tuple elements => cases hspec
  | struct ty => cases h
  | generic ident => cases h
  | _ =>
    cases h
    refine ⟨?_, fun ⟨tr, _, v, hne⟩ => absurd (encode_agree (by trivial) v) hne⟩
    rintro ⟨_, h | h⟩ <;> cases h

/-- A type is bounded by `Display` exactly in the leaves whose text `Display` gives, but for the
    types the derive knows itself. -/
theorem display_used {t : TerminalLeafSpec} {leaf : PrimitiveLeaf} (h : t.route = .primitive leaf) :
    (∃ ty, t.leaf.displayType = some ty ∨ t.leaf.displayParam = some ty) ∨ t.leaf = .asString .inherent ↔
      ∃ (tr : Traits) (display : Value → String × Bool) (v : Value), leaf.encode tr v ≠ leaf.encode { tr with display } v := by
  have hused : ∃ (tr : Traits) (display : Value → String × Bool) (v : Value),
      PrimitiveLeaf.asString.encode tr v ≠ PrimitiveLeaf.asString.encode { tr with display } v :=
    ⟨silentTraits, fun _ => ("text", true), .struct [], by decide⟩
  obtain ⟨spec, hspec⟩ := t
  cases spec with
  | asString base =>
    cases h
    refine ⟨fun _ => hused, fun _ => ?_⟩
    cases base with
    | inherent => exact .inr rfl
    | struct ty => exact .inl ⟨ty, .inl rfl⟩
    | generic ident => exact .inl ⟨ident, .inr rfl⟩
  | tuple elements => cases hspec
  | struct ty => cases h
  | generic ident => cases h
  | asStr base =>
    cases h
    refine ⟨?_, fun ⟨tr, _, v, hne⟩ => absurd (encode_agree (by cases base <;> trivial) v) hne⟩
    rintro (⟨_, h | h⟩ | h) <;> cases h
  | _ =>
    cases h
    refine ⟨?_, fun ⟨tr, _, v, hne⟩ => absurd (encode_agree (by trivial) v) hne⟩
    rintro (⟨_, h | h⟩ | h) <;> cases h

/-- A type is bounded by `Decimal128Encode` exactly in the leaves whose mantissa it gives, but for
    the type the runtime knows. -/
theorem mantissa_used {t : TerminalLeafSpec} {leaf : PrimitiveLeaf} (h : t.route = .primitive leaf) :
    ((∃ ty, t.leaf.decimalBackendType = some ty ∨ t.leaf.decimalBackendParam = some ty) ∨
        ∃ precision scale, t.leaf = .decimal precision scale .runtimeKnown) ↔
      ∃ (tr : Traits) (mantissa : Value → Nat → Option Int) (v : Value),
        leaf.encode tr v ≠ leaf.encode { tr with mantissa } v := by
  have hused : ∀ precision scale, ∃ (tr : Traits) (mantissa : Value → Nat → Option Int) (v : Value),
      (PrimitiveLeaf.decimal precision scale).encode tr v ≠
        (PrimitiveLeaf.decimal precision scale).encode { tr with mantissa } v := by
    intro precision scale
    refine ⟨silentTraits, fun _ _ => some 0, .struct [], ?_⟩
    have hrefused : (PrimitiveLeaf.decimal precision scale).encode silentTraits (.struct []) =
        Run.derive (.decimalRescale scale) := rfl
    have hzero : (PrimitiveLeaf.decimal precision scale).encode { silentTraits with mantissa := fun _ _ => some 0 } (.struct []) =
        .ok (.int 0) := if_neg (by simp)
    rw [hrefused, hzero]
    exact nofun
  obtain ⟨spec, hspec⟩ := t
  cases spec with
  | decimal precision scale backend =>
    cases h
    refine ⟨fun _ => hused precision scale, fun _ => ?_⟩
    cases backend with
    | runtimeKnown => exact .inr ⟨precision, scale, rfl⟩
    | struct ty => exact .inl ⟨ty, .inl rfl⟩
    | generic ident => exact .inl ⟨ident, .inr rfl⟩
  | tuple elements => cases hspec
  | struct ty => cases h
  | generic ident => cases h
  | asStr base =>
    cases h
    refine ⟨?_, fun ⟨tr, _, v, hne⟩ => absurd (encode_agree (by cases base <;> trivial) v) hne⟩
    rintro (⟨_, h | h⟩ | ⟨_, _, h⟩) <;> cases h
  | _ =>
    cases h
    refine ⟨?_, fun ⟨tr, _, v, hne⟩ => absurd (encode_agree (by trivial) v) hne⟩
    rintro (⟨_, h | h⟩ | ⟨_, _, h⟩) <;> cases h

/-! ## The eager assertions -/

theorem collectAsserts_types {syn : TypePath → SynType} {ctx : GenericContext} (pick : LeafSpec → Option TypePath)
    (ir : StructIR) :
    ir.columns.foldl (fun out column => collectAsserts syn ctx pick out column.leafSpec.leaf) [] =
      (ir.inRole pick).filter fun ty => !typeDependsOnGenerics ctx (syn ty) := by
  have hstep : ∀ (out : List TypePath) (c : ColumnIR), collectAsserts syn ctx pick out c.leafSpec.leaf =
      (((pick c.leafSpec.leaf).filter fun ty => !typeDependsOnGenerics ctx (syn ty))).elim out (pushNew out) := by
    intro out c
    rw [collectAsserts, c.leafSpec.walkTerminalLeaves, List.foldl_cons, List.foldl_nil]
    cases pick c.leafSpec.leaf with
    | none => rfl
    | some ty =>
      by_cases hdep : typeDependsOnGenerics ctx (syn ty) = true
      · simp [hdep, Option.filter]
      · simp [hdep, Option.filter, pushUniqueType_eq]
  have hfold : (fun out (c : ColumnIR) => collectAsserts syn ctx pick out c.leafSpec.leaf) = fun out c =>
      (((pick c.leafSpec.leaf).filter fun ty => !typeDependsOnGenerics ctx (syn ty))).elim out (pushNew out) := by
    funext out c
    exact hstep out c
  rw [hfold, foldl_pick (fun c : ColumnIR => (pick c.leafSpec.leaf).filter fun ty => !typeDependsOnGenerics ctx (syn ty)),
    foldl_pushNew, StructIR.inRole, filter_eraseDups, List.filter_filterMap]

end DfDerive
