/-
  DfDerive.Derived.Instances — generic structs and their instances.

  The derive expands a generic struct once, and rustc instantiates the expansion. Writing the
  arguments for the parameters first, each a struct of its own, and deriving then gives the
  same (`derive_instance`):
  - `parseToIr_inst`: the instance is lowered when the struct is, to the instances of its
    columns.
  - `generateImpl_inst`: its implementation is that of the struct at the arguments.
  - `requires_inst`: its bounds are those of the struct at the arguments.

  An argument the derive reads in a way of its own (`f64`, `String`, `Option<U>`) is no such
  type: there the struct nests where the instance has a scalar. Nor is one that is written as
  the struct itself: `Wrapper<T>` at `Wrapper<U>` is an instance for rustc, which the derive
  refuses when it is written out. What is accepted is therefore what lowers.
-/

import DfDerive.Derived.Requirements
import DfDerive.Lower.Canonical

namespace DfDerive

open Lib

/-! ## Types with arguments for parameters -/

section

variable (θ : TypePath → TypePath)

/-- `θ` gives a path at the arguments; a parameter, a path too, becomes the struct it stands for. -/
def LeafBase.inst : LeafBase → LeafBase
  | .struct ty => .struct (θ ty)
  | .generic ident => .struct (θ ident)
  | base => base

mutual
def RustType.inst : RustType → RustType
  | .mk stack base => .mk stack base.inst

def RustBase.inst : RustBase → RustBase
  | .leaf base => .leaf (base.inst θ)
  | .tuple elements => .tuple (instTypes elements)

def instTypes : List RustType → List RustType
  | [] => []
  | element :: elements => element.inst :: instTypes elements
end

mutual
def AnalyzedType.inst : AnalyzedType → AnalyzedType
  | .mk base wrappers depth => .mk base.inst wrappers depth

def AnalyzedBase.inst : AnalyzedBase → AnalyzedBase
  | .leaf base => .leaf (base.inst θ)
  | .tuple elements => .tuple (instAnalyzed elements)

def instAnalyzed : List AnalyzedType → List AnalyzedType
  | [] => []
  | element :: elements => element.inst :: instAnalyzed elements
end

def StringyBase.inst : StringyBase → StringyBase
  | .struct ty => .struct (θ ty)
  | .generic ident => .struct (θ ident)
  | base => base

def DisplayBase.inst : DisplayBase → DisplayBase
  | .struct ty => .struct (θ ty)
  | .generic ident => .struct (θ ident)
  | .inherent => .inherent

def DecimalBackend.inst : DecimalBackend → DecimalBackend
  | .struct ty => .struct (θ ty)
  | .generic ident => .struct (θ ident)
  | .runtimeKnown => .runtimeKnown

mutual
def LeafSpec.inst : LeafSpec → LeafSpec
  | .struct ty => .struct (θ ty)
  | .generic ident => .struct (θ ident)
  | .decimal precision scale backend => .decimal precision scale (backend.inst θ)
  | .asString base => .asString (base.inst θ)
  | .asStr base => .asStr (base.inst θ)
  | .tuple elements => .tuple (instElements elements)
  | leafSpec => leafSpec

def TupleElement.inst : TupleElement → TupleElement
  | .mk leafSpec shape depth => .mk leafSpec.inst shape depth

def instElements : List TupleElement → List TupleElement
  | [] => []
  | element :: elements => element.inst :: instElements elements
end

def FieldIR.inst (field : FieldIR) : FieldIR := { field with leafSpec := field.leafSpec.inst θ }

def FieldDecl.inst (field : FieldDecl) : FieldDecl := { field with ty := field.ty.inst θ }

def Fields.inst : Fields → Fields
  | .named fields => .named (fields.map fun f => (f.1, f.2.inst θ))
  | .unnamed fields => .unnamed (fields.map (FieldDecl.inst θ))
  | .unit => .unit

/-- The struct with the arguments written for its parameters. -/
def DeriveInput.inst (input : DeriveInput) : DeriveInput := ⟨input.ident, input.fields.inst θ⟩

end

/-! ## Analysis -/

section

variable {θ : TypePath → TypePath}

mutual
theorem analyzeType_inst : ∀ ty : RustType, analyzeType (ty.inst θ) = (analyzeType ty).map (AnalyzedType.inst θ)
  | .mk stack base => by
    rw [RustType.inst, analyzeType, analyzeType, analyzeBaseType_inst base]
    cases analyzeBaseType base <;> rfl

theorem analyzeBaseType_inst : ∀ base : RustBase,
    analyzeBaseType (base.inst θ) = (analyzeBaseType base).map (AnalyzedBase.inst θ)
  | .leaf base => rfl
  | .tuple [] => rfl
  | .tuple (element :: elements) => by
    rw [RustBase.inst, instTypes, analyzeBaseType, analyzeBaseType, analyzeType_inst element, analyzeTypes_inst elements]
    cases analyzeType element with
    | error e => rfl
    | ok first => cases analyzeTypes elements <;> rfl

theorem analyzeTypes_inst : ∀ types : List RustType,
    analyzeTypes (instTypes θ types) = (analyzeTypes types).map (instAnalyzed θ)
  | [] => rfl
  | element :: elements => by
    rw [instTypes, analyzeTypes, analyzeTypes, analyzeType_inst element, analyzeTypes_inst elements]
    cases analyzeType element with
    | error e => rfl
    | ok first => cases analyzeTypes elements <;> rfl
end

theorem isTuple_inst (base : AnalyzedBase) : (base.inst θ).isTuple = base.isTuple := by
  cases base <;> rfl

mutual
theorem rejectUnsupportedWrappedNestedTuples_inst (field : String) : ∀ a : AnalyzedType,
    rejectUnsupportedWrappedNestedTuples field (a.inst θ) = rejectUnsupportedWrappedNestedTuples field a
  | .mk (.leaf _) _ _ => rfl
  | .mk (.tuple elements) wrappers depth => by
    rw [AnalyzedType.inst, AnalyzedBase.inst, rejectUnsupportedWrappedNestedTuples, rejectUnsupportedWrappedNestedTuples,
      rejectWrappedElements_inst field _ elements]

theorem rejectWrappedElements_inst (field : String) (parentWrapped : Bool) : ∀ elements : List AnalyzedType,
    rejectWrappedElements field parentWrapped (instAnalyzed θ elements) = rejectWrappedElements field parentWrapped elements
  | [] => rfl
  | .mk base wrappers depth :: elements => by
    have hfirst := rejectUnsupportedWrappedNestedTuples_inst field (.mk base wrappers depth)
    rw [AnalyzedType.inst] at hfirst
    rw [instAnalyzed, AnalyzedType.inst, rejectWrappedElements, rejectWrappedElements, isTuple_inst, hfirst,
      rejectWrappedElements_inst field parentWrapped elements]
end

/-! ## Leaves -/

theorem defaultLeafForLeafBase_inst (field : String) (canAddAsBinary : Bool) (base : LeafBase) :
    defaultLeafForLeafBase field canAddAsBinary (base.inst θ) =
      (defaultLeafForLeafBase field canAddAsBinary base).map (LeafSpec.inst θ) := by
  cases base <;> rfl

mutual
theorem defaultLeafForBase_inst (field : String) (canAddAsBinary : Bool) : ∀ base : AnalyzedBase,
    defaultLeafForBase field canAddAsBinary (base.inst θ) =
      (defaultLeafForBase field canAddAsBinary base).map (LeafSpec.inst θ)
  | .leaf base => defaultLeafForLeafBase_inst field canAddAsBinary base
  | .tuple elements => by
    rw [AnalyzedBase.inst, defaultLeafForBase, defaultLeafForBase, analyzedToTupleElements_inst field elements]
    cases analyzedToTupleElements field elements <;> rfl

theorem analyzedToTupleElement_inst (field : String) : ∀ a : AnalyzedType,
    analyzedToTupleElement field (a.inst θ) = (analyzedToTupleElement field a).map (TupleElement.inst θ)
  | .mk base wrappers depth => by
    rw [AnalyzedType.inst, analyzedToTupleElement, analyzedToTupleElement, defaultLeafForBase_inst field false base]
    cases defaultLeafForBase field false base <;> rfl

theorem analyzedToTupleElements_inst (field : String) : ∀ elements : List AnalyzedType,
    analyzedToTupleElements field (instAnalyzed θ elements) = (analyzedToTupleElements field elements).map (instElements θ)
  | [] => rfl
  | element :: elements => by
    rw [instAnalyzed, analyzedToTupleElements, analyzedToTupleElements, analyzedToTupleElement_inst field element,
      analyzedToTupleElements_inst field elements]
    cases analyzedToTupleElement field element with
    | error e => rfl
    | ok first => cases analyzedToTupleElements field elements <;> rfl
end

theorem parseLeafSpec_inst (field : String) (override? : Option LeafOverride) (base : AnalyzedBase) :
    parseLeafSpec field override? (base.inst θ) = (parseLeafSpec field override? base).map (LeafSpec.inst θ) := by
  cases override? with
  | none => exact defaultLeafForBase_inst field true base
  | some value =>
    cases base with
    | tuple elements => rfl
    | leaf base =>
      cases value <;> cases base <;> rfl

theorem parseAsBinaryShape_inst (field : String) (base : AnalyzedBase) (wrappers : List RawWrapper) :
    parseAsBinaryShape field (base.inst θ) wrappers =
      (parseAsBinaryShape field base wrappers).map fun r => (r.1.inst θ, r.2) := by
  have hsame : parseAsBinaryShape field (base.inst θ) wrappers = parseAsBinaryShape field base wrappers := by
    cases base with
    | tuple elements => rfl
    | leaf base => cases base <;> rfl
  rw [hsame]
  cases hread : parseAsBinaryShape field base wrappers with
  | error e => rfl
  | ok r =>
    obtain ⟨leafSpec, trimmed⟩ := r
    obtain ⟨rfl, -⟩ := parseAsBinaryShape_trimmed hread
    rfl

theorem rejectInvalidFlattenField_inst (field : String) (base : AnalyzedBase) (shape : WrapperShape) :
    rejectInvalidFlattenField field (base.inst θ) shape = rejectInvalidFlattenField field base shape := by
  cases base with
  | tuple elements => rfl
  | leaf base =>
    cases shape with
    | leaf shape => cases shape <;> cases base <;> rfl
    | vec layers => cases base <;> rfl

theorem rejectAttrsOnTuple_inst (field attr : String) (base : AnalyzedBase) :
    rejectAttrsOnTuple field attr (base.inst θ) = rejectAttrsOnTuple field attr base := by
  cases base <;> rfl

theorem lowerAnalyzed_inst (name : String) (fieldIndex : Option Nat) (conversion : FieldConversion) (a : AnalyzedType) :
    lowerAnalyzed name fieldIndex conversion (a.inst θ) =
      (lowerAnalyzed name fieldIndex conversion a).map (FieldIR.inst θ) := by
  have hreject := @rejectUnsupportedWrappedNestedTuples_inst θ name a
  obtain ⟨base, wrappers, depth⟩ := a
  rw [lowerAnalyzed, lowerAnalyzed, hreject]
  cases rejectUnsupportedWrappedNestedTuples name (.mk base wrappers depth) with
  | error e => rfl
  | ok _ =>
    simp only [ok_bind, AnalyzedType.inst, AnalyzedType.base, AnalyzedType.wrappers, AnalyzedType.outerSmartPtrDepth]
    cases conversion with
    | «flatten» names =>
      simp only [rejectInvalidFlattenField_inst, parseLeafSpec_inst]
      cases rejectInvalidFlattenField name base (normalizeWrappers wrappers) with
      | error e => rfl
      | ok _ => cases parseLeafSpec name none base <;> rfl
    | binary =>
      simp only [rejectAttrsOnTuple_inst, parseAsBinaryShape_inst]
      cases rejectAttrsOnTuple name "as_binary" base with
      | error e => rfl
      | ok _ => cases parseAsBinaryShape name base wrappers <;> rfl
    | default =>
      simp only [parseLeafSpec_inst]
      cases parseLeafSpec name none base <;> rfl
    | leafOverride value =>
      simp only [parseLeafSpec_inst]
      cases parseLeafSpec name (some value) base <;> rfl

theorem lowerField_inst (field : FieldDecl) (name : String) (fieldIndex : Option Nat) :
    lowerField (field.inst θ) name fieldIndex = (lowerField field name fieldIndex).map (Option.map (FieldIR.inst θ)) := by
  obtain ⟨ty, disposition⟩ := field
  cases disposition with
  | skip => rfl
  | «include» conversion =>
    rw [FieldDecl.inst, lowerField_include, lowerField_include, analyzeType_inst]
    cases analyzeType ty with
    | error e => rfl
    | ok a =>
      show (do .ok (some (← lowerAnalyzed name fieldIndex conversion (a.inst θ)))) = _
      rw [lowerAnalyzed_inst]
      cases hlower : lowerAnalyzed name fieldIndex conversion a with
      | error e =>
        rw [ok_bind, hlower]
        rfl
      | ok ir =>
        rw [ok_bind, hlower]
        rfl

theorem lowerNamedFields_inst : ∀ fields : List (String × FieldDecl),
    lowerNamedFields (fields.map fun f => (f.1, f.2.inst θ)) = (lowerNamedFields fields).map (List.map (FieldIR.inst θ))
  | [] => rfl
  | (name, field) :: fields => by
    rw [List.map_cons, lowerNamedFields, lowerNamedFields, lowerField_inst field name none, lowerNamedFields_inst fields]
    cases lowerField field name none with
    | error e => rfl
    | ok first =>
      cases lowerNamedFields fields with
      | error e => rfl
      | ok rest => cases first <;> rfl

theorem lowerUnnamedFields_inst : ∀ (fields : List FieldDecl) (index : Nat),
    lowerUnnamedFields index (fields.map (FieldDecl.inst θ)) = (lowerUnnamedFields index fields).map (List.map (FieldIR.inst θ))
  | [], _ => rfl
  | field :: fields, index => by
    rw [List.map_cons, lowerUnnamedFields, lowerUnnamedFields, lowerField_inst field _ _, lowerUnnamedFields_inst fields _]
    cases lowerField field s!"field_{index}" (some index) with
    | error e => rfl
    | ok first =>
      cases lowerUnnamedFields (index + 1) fields with
      | error e => rfl
      | ok rest => cases first <;> rfl

theorem lowerFields_inst (fields : Fields) :
    lowerFields (fields.inst θ) = (lowerFields fields).map (List.map (FieldIR.inst θ)) := by
  cases fields with
  | named fields => exact lowerNamedFields_inst fields
  | unnamed fields => exact lowerUnnamedFields_inst fields 0
  | unit => rfl

end

/-! ## Columns -/

section

variable (θ : TypePath → TypePath)

def PrimitiveLeaf.inst : PrimitiveLeaf → PrimitiveLeaf
  | .asStr base => .asStr (base.inst θ)
  | leaf => leaf

def TerminalLeafRoute.inst : TerminalLeafRoute → TerminalLeafRoute
  | .primitive leaf => .primitive (leaf.inst θ)
  | .nested inner => .nested (.struct (θ inner.ty))

end

section

variable {θ : TypePath → TypePath}

theorem terminalRoute_inst (leaf : LeafSpec) :
    (leaf.inst θ).terminalRoute = leaf.terminalRoute.map (TerminalLeafRoute.inst θ) := by
  cases leaf <;> rfl

end

def TerminalLeafSpec.inst (θ : TypePath → TypePath) (t : TerminalLeafSpec) : TerminalLeafSpec where
  leaf := t.leaf.inst θ
  terminal := by
    rw [terminalRoute_inst, Option.isSome_map]
    exact t.terminal

def ColumnIR.inst (θ : TypePath → TypePath) : ColumnIR → ColumnIR
  | .field c => .field { c with leafSpec := c.leafSpec.inst θ }
  | .tupleStatic c => .tupleStatic { c with leafSpec := c.leafSpec.inst θ }
  | .tupleParentOption c => .tupleParentOption { c with leafSpec := c.leafSpec.inst θ }
  | .tupleParentVec c => .tupleParentVec { c with leafSpec := c.leafSpec.inst θ }

def StructIR.inst (θ : TypePath → TypePath) (ir : StructIR) : StructIR := ⟨ir.name, ir.columns.map (ColumnIR.inst θ)⟩

section

variable {θ : TypePath → TypePath}

theorem TerminalLeafSpec.route_inst (t : TerminalLeafSpec) : (t.inst θ).route = t.route.inst θ := by
  obtain ⟨leaf, hleaf⟩ := t
  cases leaf <;> first | rfl | cases hleaf

theorem ColumnIR.leafSpec_inst (c : ColumnIR) : (c.inst θ).leafSpec = c.leafSpec.inst θ := by
  cases c <;> rfl

theorem ColumnIR.name_inst (c : ColumnIR) : (c.inst θ).name = c.name := by
  cases c <;> rfl

theorem ColumnIR.nestedNamePolicy_inst (c : ColumnIR) : (c.inst θ).nestedNamePolicy = c.nestedNamePolicy := by
  cases c <;> rfl

theorem ColumnIR.vecDepth_inst (c : ColumnIR) : (c.inst θ).vecDepth = c.vecDepth := by
  cases c <;> rfl

/-- A leaf that is no tuple has one column, the instance of its column. -/
theorem terminalLeaf_inst {column column' : TerminalLeafSpec → ColumnIR} (h : ∀ t, column' (t.inst θ) = (column t).inst θ)
    (leaf : LeafSpec) : terminalLeaf (leaf.inst θ) column' = (terminalLeaf leaf column).map (ColumnIR.inst θ) := by
  rw [terminalLeaf, terminalLeaf, TerminalLeafSpec.new, TerminalLeafSpec.new]
  by_cases hleaf : leaf.terminalRoute.isSome = true
  · have hinst : (leaf.inst θ).terminalRoute.isSome = true := by
      rw [terminalRoute_inst, Option.isSome_map]
      exact hleaf
    rw [dif_pos hleaf, dif_pos hinst]
    exact congrArg ([·]) (h ⟨leaf, hleaf⟩)
  · have hinst : ¬ (leaf.inst θ).terminalRoute.isSome = true := by
      rw [terminalRoute_inst, Option.isSome_map]
      exact hleaf
    rw [dif_neg hleaf, dif_neg hinst]
    rfl

theorem projectTupleElement_inst (root : FieldSource) (name : String) (parentWrapper : WrapperShape)
    (pathPrefix : List TupleProjectionStep) (step : TupleProjectionStep) (elementShape : WrapperShape) (t : TerminalLeafSpec) :
    projectTupleElement root name parentWrapper pathPrefix step elementShape (t.inst θ) =
      (projectTupleElement root name parentWrapper pathPrefix step elementShape t).inst θ := by
  unfold projectTupleElement
  cases composeParentWithElement parentWrapper elementShape <;> rfl

mutual
theorem projectTupleElements_inst (root : FieldSource) (column : String) (parentWrapper : WrapperShape)
    (pathPrefix : List TupleProjectionStep) : ∀ (index : Nat) (elements : List TupleElement),
      projectTupleElements root column parentWrapper pathPrefix index (instElements θ elements) =
        (projectTupleElements root column parentWrapper pathPrefix index elements).map (ColumnIR.inst θ)
  | _, [] => rfl
  | index, element :: elements => by
    rw [instElements, projectTupleElements, projectTupleElements, List.map_append,
      projectElement_inst root _ parentWrapper pathPrefix index element,
      projectTupleElements_inst root column parentWrapper pathPrefix (index + 1) elements]

theorem projectElement_inst (root : FieldSource) (name : String) (parentWrapper : WrapperShape)
    (pathPrefix : List TupleProjectionStep) (index : Nat) : ∀ element : TupleElement,
      projectElement root name parentWrapper pathPrefix index (element.inst θ) =
        (projectElement root name parentWrapper pathPrefix index element).map (ColumnIR.inst θ)
  | .mk leafSpec shape depth => by
    rw [TupleElement.inst, projectElement, projectElement]
    exact projectElementLeaf_inst root name parentWrapper pathPrefix _ shape leafSpec

theorem projectElementLeaf_inst (root : FieldSource) (name : String) (parentWrapper : WrapperShape)
    (pathPrefix : List TupleProjectionStep) (step : TupleProjectionStep) (elementShape : WrapperShape) : ∀ leaf : LeafSpec,
      projectElementLeaf root name parentWrapper pathPrefix step elementShape (leaf.inst θ) =
        (projectElementLeaf root name parentWrapper pathPrefix step elementShape leaf).map (ColumnIR.inst θ)
  | .tuple inner => projectTupleElements_inst root name _ _ 0 inner
  | .numeric _ | .string | .bool | .dateTime _ | .naiveDateTime _ | .naiveDate | .naiveTime | .duration _ _ | .decimal _ _ _
  | .asString _ | .asStr _ | .binary | .struct _ | .generic _ => terminalLeaf_inst (projectTupleElement_inst _ _ _ _ _ _) _
end

theorem projectField_inst (field : FieldIR) : projectField (field.inst θ) = (projectField field).map (ColumnIR.inst θ) := by
  obtain ⟨name, fieldIndex, leafSpec, shape, depth, policy⟩ := field
  cases leafSpec with
  | tuple elements => exact projectTupleElements_inst _ _ _ _ 0 elements
  | numeric _ | string | bool | dateTime _ | naiveDateTime _ | naiveDate | naiveTime | duration _ _ | decimal _ _ _
  | asString _ | asStr _ | binary | struct _ | generic _ => exact terminalLeaf_inst (fun _ => rfl) _

theorem parseToIr_inst (input : DeriveInput) : parseToIr (input.inst θ) = (parseToIr input).map (StructIR.inst θ) := by
  rw [parseToIr, parseToIr, DeriveInput.inst, lowerFields_inst]
  cases lowerFields input.fields with
  | error e => rfl
  | ok fields =>
    refine congrArg (fun columns => Except.ok (StructIR.mk input.ident columns)) ?_
    show (fields.map (FieldIR.inst θ)).flatMap projectField = (fields.flatMap projectField).map (ColumnIR.inst θ)
    rw [List.flatMap_map, List.map_flatMap]
    exact List.flatMap_congr fun f _ => projectField_inst f

end

/-! ## Implementations -/

/-- What the paths of a generic struct stand for at the arguments. -/
def Env.along (env : Env) (θ : TypePath → TypePath) : Env := ⟨env.traits, fun ty => env.impl (θ ty)⟩

section

variable {θ : TypePath → TypePath} {env : Env}

theorem buildEncoderWithOptionReceiver_inst (ctx : LeafCtx) (leaf : PrimitiveLeaf) (shape : WrapperShape)
    (receiver : Option PrimitiveExprReceiver) :
    buildEncoderWithOptionReceiver ctx (leaf.inst θ) shape receiver =
      buildEncoderWithOptionReceiver ctx leaf shape receiver := by
  cases leaf with
  | asStr base => cases base <;> rfl
  | _ => rfl

theorem buildProjectedVecPrimitive_inst (tr : Traits) (column : TupleParentVecColumn) (leaf : PrimitiveLeaf) :
    buildProjectedVecPrimitive tr column (leaf.inst θ) = buildProjectedVecPrimitive tr column leaf := by
  cases leaf with
  | asStr base => cases base <;> rfl
  | _ => rfl

theorem buildProjectedStandardEmit_inst (name : String) (leafSpec : TerminalLeafSpec) (shape : WrapperShape)
    (access : Operand → Run Operand) (receiver : Option PrimitiveExprReceiver) :
    buildProjectedStandardEmit env name (leafSpec.inst θ) shape access receiver =
      buildProjectedStandardEmit (env.along θ) name leafSpec shape access receiver := by
  rw [buildProjectedStandardEmit, buildProjectedStandardEmit, TerminalLeafSpec.route_inst]
  cases leafSpec.route with
  | nested nested => rfl
  | primitive leaf => simp only [TerminalLeafRoute.inst, buildEncoderWithOptionReceiver_inst, Env.along]

theorem isCopyParentOptionProjection_inst (column : TupleParentOptionColumn) :
    isCopyParentOptionProjection { column with leafSpec := column.leafSpec.inst θ } = isCopyParentOptionProjection column := by
  rw [isCopyParentOptionProjection, isCopyParentOptionProjection, TerminalLeafSpec.route_inst]
  cases column.leafSpec.route with
  | nested nested => rfl
  | primitive leaf =>
    have hcopy : (leaf.inst θ).isCopy = leaf.isCopy := by
      cases leaf <;> rfl
    cases column.wrapperShape with
    | vec layers => rfl
    | leaf shape =>
      cases shape with
      | bare => rfl
      | optional optionLayers access => simp only [TerminalLeafRoute.inst, hcopy]

theorem buildTupleParentOptionEmit_inst (column : TupleParentOptionColumn) :
    buildTupleParentOptionEmit env { column with leafSpec := column.leafSpec.inst θ } =
      buildTupleParentOptionEmit (env.along θ) column := by
  have haccess : tupleParentOptionAccess { column with leafSpec := column.leafSpec.inst θ } =
      tupleParentOptionAccess column := by
    funext it
    simp only [tupleParentOptionAccess, isCopyParentOptionProjection_inst]
  have hreceiver : tupleParentOptionSomeReceiver { column with leafSpec := column.leafSpec.inst θ } =
      tupleParentOptionSomeReceiver column := by
    simp only [tupleParentOptionSomeReceiver, isCopyParentOptionProjection_inst]
  rw [buildTupleParentOptionEmit, buildTupleParentOptionEmit, haccess, hreceiver]
  exact buildProjectedStandardEmit_inst _ column.leafSpec _ _ _

theorem buildColumnEmit_inst : ∀ column : ColumnIR, buildColumnEmit env (column.inst θ) = buildColumnEmit (env.along θ) column
  | .field column => by
    show buildFieldColumnEmit env { column with leafSpec := column.leafSpec.inst θ } = buildFieldColumnEmit (env.along θ) column
    rw [buildFieldColumnEmit, buildFieldColumnEmit, TerminalLeafSpec.route_inst]
    cases column.leafSpec.route with
    | nested nested => rfl
    | primitive leaf => exact congrArg Encoder.emit (buildEncoderWithOptionReceiver_inst _ leaf _ none)
  | .tupleStatic column => buildProjectedStandardEmit_inst _ column.leafSpec _ _ _
  | .tupleParentOption column => buildTupleParentOptionEmit_inst column
  | .tupleParentVec column => by
    show buildParentVecProjectionEmit env { column with leafSpec := column.leafSpec.inst θ } =
      buildParentVecProjectionEmit (env.along θ) column
    rw [buildParentVecProjectionEmit, buildParentVecProjectionEmit, TerminalLeafSpec.route_inst]
    cases column.leafSpec.route with
    | nested nested => rfl
    | primitive leaf => exact congrArg ColumnEmit.wholeColumn (buildProjectedVecPrimitive_inst env.traits _ leaf)

theorem dtype_inst (leaf : PrimitiveLeaf) : (leaf.inst θ).dtype = leaf.dtype := by
  cases leaf <;> rfl

theorem buildSchemaEntries_inst (column : ColumnIR) :
    buildSchemaEntries env (column.inst θ) = buildSchemaEntries (env.along θ) column := by
  rw [buildSchemaEntries, buildSchemaEntries, column.leafSpec_inst, TerminalLeafSpec.route_inst, column.name_inst,
    column.nestedNamePolicy_inst, column.vecDepth_inst]
  cases column.leafSpec.route with
  | nested nested => rfl
  | primitive leaf => simp only [TerminalLeafRoute.inst, columnFullDtype, dtype_inst]

theorem buildEmptySeries_inst (column : ColumnIR) :
    buildEmptySeries env (column.inst θ) = buildEmptySeries (env.along θ) column := by
  rw [buildEmptySeries, buildEmptySeries, column.leafSpec_inst, TerminalLeafSpec.route_inst, column.name_inst,
    column.nestedNamePolicy_inst, column.vecDepth_inst]
  cases column.leafSpec.route with
  | nested nested => rfl
  | primitive leaf => simp only [TerminalLeafRoute.inst, columnFullDtype, dtype_inst]

theorem uniqueNameValidation_inst (ir : StructIR) (typeName : String) (names : List String) :
    uniqueNameValidation (ir.inst θ) typeName names = uniqueNameValidation ir typeName names := by
  have hneeds : needsUniqueNameValidation (ir.inst θ) = needsUniqueNameValidation ir := by
    rw [needsUniqueNameValidation, needsUniqueNameValidation, StructIR.inst, List.any_map]
    exact congrArg (List.any ir.columns) (funext fun c => by rw [Function.comp_apply, c.nestedNamePolicy_inst])
  rw [uniqueNameValidation, uniqueNameValidation, hneeds]

/-- The implementation of an instance is that of the generic struct, at the arguments. -/
theorem generateImpl_inst (ir : StructIR) (typeName : String) :
    generateImpl env (ir.inst θ) typeName = generateImpl (env.along θ) ir typeName := by
  have hcolumns : (ir.inst θ).columns = ir.columns.map (ColumnIR.inst θ) := rfl
  have hnil : (ir.inst θ).columns.isEmpty = ir.columns.isEmpty := List.isEmpty_map
  have hschema : schemaFn env (ir.inst θ) typeName = schemaFn (env.along θ) ir typeName := by
    simp only [schemaFn, hnil, uniqueNameValidation_inst]
    rw [hcolumns, List.mapM_map]
    simp only [Function.comp_def, buildSchemaEntries_inst]
  have hempty : emptyDataframeFn env (ir.inst θ) typeName = emptyDataframeFn (env.along θ) ir typeName := by
    simp only [emptyDataframeFn, hnil, uniqueNameValidation_inst]
    rw [hcolumns, List.mapM_map]
    simp only [Function.comp_def, buildEmptySeries_inst]
  have hemits : (ir.inst θ).columns.map (buildColumnEmit env) = ir.columns.map (buildColumnEmit (env.along θ)) := by
    rw [hcolumns, List.map_map]
    exact List.map_congr_left fun c _ => buildColumnEmit_inst c
  have hbody : columnarMethodBody env (ir.inst θ) typeName = columnarMethodBody (env.along θ) ir typeName := by
    funext items
    simp only [columnarMethodBody, hempty, hemits, uniqueNameValidation_inst]
  simp only [generateImpl, hschema, hempty, hbody]

end

/-! ## Bounds -/

namespace LeafSpec

section

variable {θ : TypePath → TypePath} {leaf : LeafSpec} {ty : TypePath}

theorem nested_inst : (leaf.inst θ).nestedType = some ty ∨ (leaf.inst θ).nestedParam = some ty ↔
    ∃ ty', θ ty' = ty ∧ (leaf.nestedType = some ty' ∨ leaf.nestedParam = some ty') := by
  cases leaf <;> simp [LeafSpec.inst, nestedType, nestedParam]

theorem asRefStr_inst : (leaf.inst θ).asRefStrType = some ty ∨ (leaf.inst θ).asRefStrParam = some ty ↔
    ∃ ty', θ ty' = ty ∧ (leaf.asRefStrType = some ty' ∨ leaf.asRefStrParam = some ty') := by
  cases leaf with
  | asStr base => cases base <;> simp [LeafSpec.inst, StringyBase.inst, asRefStrType, asRefStrParam]
  | _ => simp [LeafSpec.inst, asRefStrType, asRefStrParam]

theorem display_inst : (leaf.inst θ).displayType = some ty ∨ (leaf.inst θ).displayParam = some ty ↔
    ∃ ty', θ ty' = ty ∧ (leaf.displayType = some ty' ∨ leaf.displayParam = some ty') := by
  cases leaf with
  | asString base => cases base <;> simp [LeafSpec.inst, DisplayBase.inst, displayType, displayParam]
  | _ => simp [LeafSpec.inst, displayType, displayParam]

theorem decimalBackend_inst : (leaf.inst θ).decimalBackendType = some ty ∨ (leaf.inst θ).decimalBackendParam = some ty ↔
    ∃ ty', θ ty' = ty ∧ (leaf.decimalBackendType = some ty' ∨ leaf.decimalBackendParam = some ty') := by
  cases leaf with
  | decimal precision scale backend =>
    cases backend <;> simp [LeafSpec.inst, DecimalBackend.inst, decimalBackendType, decimalBackendParam]
  | _ => simp [LeafSpec.inst, decimalBackendType, decimalBackendParam]

/-- An instance needs of the arguments what the generic struct needs of its types. -/
theorem needs_inst {traits : RuntimeTraitPaths} {trait : SynPath} :
    (leaf.inst θ).Needs traits ty trait ↔ ∃ ty', θ ty' = ty ∧ leaf.Needs traits ty' trait := by
  constructor
  · intro hneeds
    cases hneeds with
    | toDataframe h =>
      obtain ⟨ty', hty, h'⟩ := nested_inst.mp h
      exact ⟨ty', hty, .toDataframe h'⟩
    | columnar h =>
      obtain ⟨ty', hty, h'⟩ := nested_inst.mp h
      exact ⟨ty', hty, .columnar h'⟩
    | asRefStr h =>
      obtain ⟨ty', hty, h'⟩ := asRefStr_inst.mp h
      exact ⟨ty', hty, .asRefStr h'⟩
    | display h =>
      obtain ⟨ty', hty, h'⟩ := display_inst.mp h
      exact ⟨ty', hty, .display h'⟩
    | decimal128Encode h =>
      obtain ⟨ty', hty, h'⟩ := decimalBackend_inst.mp h
      exact ⟨ty', hty, .decimal128Encode h'⟩
  · rintro ⟨ty', hty, hneeds⟩
    cases hneeds with
    | toDataframe h => exact .toDataframe (nested_inst.mpr ⟨ty', hty, h⟩)
    | columnar h => exact .columnar (nested_inst.mpr ⟨ty', hty, h⟩)
    | asRefStr h => exact .asRefStr (asRefStr_inst.mpr ⟨ty', hty, h⟩)
    | display h => exact .display (display_inst.mpr ⟨ty', hty, h⟩)
    | decimal128Encode h => exact .decimal128Encode (decimalBackend_inst.mpr ⟨ty', hty, h⟩)

/-- No parameter is left in an instance. -/
theorem param_inst : (leaf.inst θ).param = none := by
  cases leaf with
  | asStr base => cases base <;> rfl
  | asString base => cases base <;> rfl
  | decimal precision scale backend => cases backend <;> rfl
  | _ => rfl

end

end LeafSpec

theorem StructIR.paramsOf_inst {θ : TypePath → TypePath} (ir : StructIR) (generics : List GenericParam) :
    (ir.inst θ).ParamsOf generics := by
  intro c hc ident hparam
  obtain ⟨column, -, rfl⟩ := List.mem_map.mp hc
  rw [column.leafSpec_inst, TerminalLeafSpec.inst, LeafSpec.param_inst] at hparam
  cases hparam

/-- The bounds of an instance are the bounds of the generic struct at the arguments. -/
theorem requires_inst {θ : TypePath → TypePath} {generics generics' : List GenericParam} {traits : RuntimeTraitPaths}
    {ir : StructIR} (hparams : ir.ParamsOf generics) {ty : TypePath} {trait : SynPath} :
    (implPartsWithBounds generics' traits (ir.inst θ)).Requires ty trait ↔
      ∃ ty', θ ty' = ty ∧ (implPartsWithBounds generics traits ir).Requires ty' trait := by
  simp only [requires_iff (ir.paramsOf_inst generics'), requires_iff hparams]
  constructor
  · rintro ⟨c, hc, hneeds⟩
    obtain ⟨column, hcolumn, rfl⟩ := List.mem_map.mp hc
    rw [column.leafSpec_inst] at hneeds
    obtain ⟨ty', hty, hneeds'⟩ := LeafSpec.needs_inst.mp hneeds
    exact ⟨ty', hty, column, hcolumn, hneeds'⟩
  · rintro ⟨ty', hty, column, hcolumn, hneeds⟩
    refine ⟨column.inst θ, List.mem_map_of_mem hcolumn, ?_⟩
    rw [column.leafSpec_inst]
    exact LeafSpec.needs_inst.mpr ⟨ty', hty, hneeds⟩

/-! ## The derive -/

/-- The derive expands a generic struct once for all its instances: an instance is lowered with
    the struct, implemented like the struct at the arguments, and bounded by the struct's bounds
    there. -/
theorem derive_instance (crates : Crates) (text : FieldType → TypePath) (input : WrittenInput) {config : MacroConfig}
    {ir : StructIR} (h : toDataframeDerive crates text input = .ok (config, ir)) :
    ∃ d, InputMeans text input d ∧ ∀ θ, ∃ ir', parseToIr (d.inst θ) = .ok ir' ∧
      (∀ env typeName, generateImpl env ir' typeName = generateImpl (env.along θ) ir typeName) ∧
      ∀ generics ty trait, (implPartsWithBounds generics config.traits ir').Requires ty trait ↔
        ∃ ty', θ ty' = ty ∧ (implPartsWithBounds input.generics config.traits ir).Requires ty' trait := by
  obtain ⟨-, d, hmeans, hir⟩ := toDataframeDerive_ok.mp h
  refine ⟨d, hmeans, fun θ => ⟨ir.inst θ, ?_, ?_, ?_⟩⟩
  · rw [parseToIr_inst, hir]
    rfl
  · exact fun env typeName => generateImpl_inst ir typeName
  · exact fun generics ty trait => requires_inst (hmeans.paramsOf hir)

theorem derive_instance_pair :
    ∃ config ir, toDataframeDerive ⟨fun _ => none, none⟩ lastName pairInput = .ok (config, ir) ∧
      ∃ d, InputMeans lastName pairInput d ∧ ∀ θ, ∃ ir', parseToIr (d.inst θ) = .ok ir' ∧
        (∀ env typeName, generateImpl env ir' typeName = generateImpl (env.along θ) ir typeName) ∧
        ∀ generics ty trait, (implPartsWithBounds generics config.traits ir').Requires ty trait ↔
          ∃ ty', θ ty' = ty ∧ (implPartsWithBounds pairInput.generics config.traits ir).Requires ty' trait := by
  obtain ⟨config, ir, h⟩ := pairInput_accepted
  exact ⟨config, ir, h, derive_instance _ _ _ h⟩

end DfDerive
