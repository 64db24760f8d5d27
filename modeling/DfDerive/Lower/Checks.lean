/-
  DfDerive.Lower.Checks — the assertions of the projection (`lower/projection.rs`).

  The projection relies on what lowering has rejected: below a tuple in a `Vec` there is no
  further tuple, a column projected from a `Vec` ends at the tuple's own element, and only
  terminal leaves and non-empty paths are left. `projectFieldsToColumnsChecked` is the
  projection with these assertions; on the fields of an accepted struct none of them fires
  (`projectFieldsToColumnsChecked_eq`).
-/

import DfDerive.Lower.Accepted

namespace DfDerive

open Lib

/-- The assertions and expectations of the projection. -/
inductive ProjectionFault where
  /-- `validation must reject nested tuple projections inside Vec tuple parents` -/
  | nestedTupleInVec
  /-- `Vec tuple projections must end at the tuple element` -/
  | vecPathLength
  /-- `projection only emits terminal column leaves` -/
  | notTerminal
  /-- `tuple projection path is never empty` -/
  | emptyPath
  deriving DecidableEq, Repr

def terminalLeafChecked (leafSpec : LeafSpec) : Except ProjectionFault TerminalLeafSpec :=
  match TerminalLeafSpec.new leafSpec with
  | some leaf => .ok leaf
  | none => .error .notTerminal

def projectionPathChecked : List TupleProjectionStep → Except ProjectionFault TupleProjectionPath
  | [] => .error .emptyPath
  | first :: rest => .ok ⟨first, rest⟩

/-- The column of one element that is not a tuple, `path` ending at the element. -/
def projectTupleElementChecked (root : FieldSource) (name : String) (parentWrapper : WrapperShape)
    (path : List TupleProjectionStep) (step : TupleProjectionStep) (elementShape : WrapperShape)
    (leafSpec : LeafSpec) : Except ProjectionFault (List ColumnIR) := do
  let leaf ← terminalLeafChecked leafSpec
  let common : ColumnCommon := ⟨name, leaf, .field⟩
  match composeParentWithElement parentWrapper elementShape with
  | .static wrapperShape => do
    .ok [.tupleStatic ⟨common, root, ← projectionPathChecked path, wrapperShape⟩]
  | .parentOption wrapperShape parentAccess => do
    .ok [.tupleParentOption ⟨common, root, ← projectionPathChecked path, parentAccess, wrapperShape⟩]
  | .parentVec wrapperShape projectionLayer parentInnerAccess =>
    if path.length = 1 then
      .ok [.tupleParentVec ⟨common, root, step, projectionLayer, parentInnerAccess, wrapperShape⟩]
    else .error .vecPathLength

mutual
def projectTupleElementsChecked (root : FieldSource) (column : String) (parentWrapper : WrapperShape)
    (pathPrefix : List TupleProjectionStep) (index : Nat) : List TupleElement → Except ProjectionFault (List ColumnIR)
  | [] => .ok []
  | element :: elements => do
    let first ← projectElementChecked root (fieldName column index) parentWrapper pathPrefix index element
    let rest ← projectTupleElementsChecked root column parentWrapper pathPrefix (index + 1) elements
    .ok (first ++ rest)

def projectElementChecked (root : FieldSource) (name : String) (parentWrapper : WrapperShape)
    (pathPrefix : List TupleProjectionStep) (index : Nat) : TupleElement → Except ProjectionFault (List ColumnIR)
  | .mk leafSpec wrapperShape outerSmartPtrDepth =>
    projectElementLeafChecked root name parentWrapper (pathPrefix ++ [⟨index, outerSmartPtrDepth⟩])
      ⟨index, outerSmartPtrDepth⟩ wrapperShape leafSpec

def projectElementLeafChecked (root : FieldSource) (name : String) (parentWrapper : WrapperShape)
    (path : List TupleProjectionStep) (step : TupleProjectionStep) (elementShape : WrapperShape) :
    LeafSpec → Except ProjectionFault (List ColumnIR)
  | .tuple inner => match parentWrapper with
    | .vec _ => .error .nestedTupleInVec
    | .leaf _ => projectTupleElementsChecked root name (.leaf .bare) path 0 inner
  | leafSpec => projectTupleElementChecked root name parentWrapper path step elementShape leafSpec
end

def projectFieldChecked (field : FieldIR) : Except ProjectionFault (List ColumnIR) :=
  let name := columnNameForIdent field.name
  match field.leafSpec with
  | .tuple elements => projectTupleElementsChecked field.root name field.wrapperShape [] 0 elements
  | leafSpec => do
    .ok [.field ⟨⟨name, ← terminalLeafChecked leafSpec, field.nestedNamePolicy⟩, field.root, field.wrapperShape⟩]

def projectFieldsToColumnsChecked : List FieldIR → Except ProjectionFault (List ColumnIR)
  | [] => .ok []
  | field :: fields => do
    let first ← projectFieldChecked field
    let rest ← projectFieldsToColumnsChecked fields
    .ok (first ++ rest)

/-- A struct's columns, projected under the assertions. -/
def parseToIrChecked (input : DeriveInput) : Except LowerError (Except ProjectionFault StructIR) := do
  let fields ← lowerFields input.fields
  .ok ((projectFieldsToColumnsChecked fields).map fun columns => ⟨input.ident, columns⟩)

/-! ## None fires -/

/-- Below wrappers a path starts at the tuple of the field. -/
theorem projectTupleElementChecked_eq {root : FieldSource} {name : String} {parent shape : WrapperShape}
    {pathPrefix : List TupleProjectionStep} (step : TupleProjectionStep) {leafSpec : LeafSpec}
    (hpath : parent = .leaf .bare ∨ pathPrefix = []) (hleaf : leafSpec.terminalRoute.isSome = true) :
    projectTupleElementChecked root name parent (pathPrefix ++ [step]) step shape leafSpec =
      .ok (terminalLeaf leafSpec (projectTupleElement root name parent pathPrefix step shape)) := by
  have hnew : TerminalLeafSpec.new leafSpec = some ⟨leafSpec, hleaf⟩ := dif_pos hleaf
  rw [projectTupleElementChecked, terminalLeafChecked, terminalLeaf, hnew]
  rcases hpath with rfl | rfl
  · cases pathPrefix <;> rfl
  · cases parent with
    | leaf s => cases s <;> rfl
    | vec layers => rfl

mutual
theorem projectTupleElementsChecked_eq (root : FieldSource) (column : String) {parent : WrapperShape}
    {pathPrefix : List TupleProjectionStep} (hpath : parent = .leaf .bare ∨ pathPrefix = []) : ∀ (index : Nat)
    (elements : List TupleElement), ElementsProjectable (parent = .leaf .bare) elements →
      projectTupleElementsChecked root column parent pathPrefix index elements =
        .ok (projectTupleElements root column parent pathPrefix index elements)
  | _, [], _ => rfl
  | index, element :: elements, h => by
    rw [projectTupleElementsChecked, projectElementChecked_eq root _ hpath index element h.1, ok_bind,
      projectTupleElementsChecked_eq root column hpath (index + 1) elements h.2]
    rfl

theorem projectElementChecked_eq (root : FieldSource) (name : String) {parent : WrapperShape}
    {pathPrefix : List TupleProjectionStep} (hpath : parent = .leaf .bare ∨ pathPrefix = []) (index : Nat) :
    ∀ element : TupleElement, ElementProjectable (parent = .leaf .bare) element →
      projectElementChecked root name parent pathPrefix index element =
        .ok (projectElement root name parent pathPrefix index element)
  | .mk leafSpec shape outerSmartPtrDepth, h =>
    projectElementLeafChecked_eq root name hpath ⟨index, outerSmartPtrDepth⟩ shape leafSpec h.2

theorem projectElementLeafChecked_eq (root : FieldSource) (name : String) {parent : WrapperShape}
    {pathPrefix : List TupleProjectionStep} (hpath : parent = .leaf .bare ∨ pathPrefix = []) (step : TupleProjectionStep)
    (shape : WrapperShape) : ∀ leafSpec : LeafSpec, LeafProjectable (parent = .leaf .bare ∧ shape = .leaf .bare) leafSpec →
      projectElementLeafChecked root name parent (pathPrefix ++ [step]) step shape leafSpec =
        .ok (projectElementLeaf root name parent pathPrefix step shape leafSpec)
  | .tuple elements, h => by
    -- lowering has rejected every nested tuple below wrappers
    obtain ⟨⟨rfl, -⟩, helements⟩ := h
    have hinner : ElementsProjectable (WrapperShape.leaf .bare = .leaf .bare) elements := by
      rw [eq_true (rfl : WrapperShape.leaf .bare = .leaf .bare)]
      exact helements
    exact projectTupleElementsChecked_eq root name (Or.inl rfl) 0 elements hinner
  | .numeric _, _ | .string, _ | .bool, _ | .dateTime _, _ | .naiveDateTime _, _ | .naiveDate, _ | .naiveTime, _
  | .duration _ _, _ | .decimal _ _ _, _ | .asString _, _ | .asStr _, _ | .binary, _ | .struct _, _ | .generic _, _ =>
    projectTupleElementChecked_eq step hpath rfl
end

theorem projectFieldChecked_eq {field : FieldIR} (h : field.Projectable) :
    projectFieldChecked field = .ok (projectField field) := by
  obtain ⟨name, fieldIndex, leafSpec, shape, depth, policy⟩ := field
  cases leafSpec with
  | tuple elements => exact projectTupleElementsChecked_eq _ _ (Or.inr rfl) 0 elements (h.elements elements rfl)
  | _ => rfl

theorem projectFieldsToColumnsChecked_eq : ∀ {fields : List FieldIR}, (∀ f ∈ fields, f.Projectable) →
    projectFieldsToColumnsChecked fields = .ok (projectFieldsToColumns fields)
  | [], _ => rfl
  | field :: fields, h => by
    rw [projectFieldsToColumnsChecked, projectFieldChecked_eq (h field List.mem_cons_self), ok_bind,
      projectFieldsToColumnsChecked_eq fun f hf => h f (List.mem_cons_of_mem _ hf)]
    rfl

end DfDerive
