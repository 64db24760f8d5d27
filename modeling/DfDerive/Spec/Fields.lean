/-
  DfDerive.Spec.Fields — the reference columns of a field.

  A field leads, past its own wrappers, to its leaf; a tuple leads to each of its elements,
  past the element's wrappers, and so on down (`leafRefs`). This is the reference for
  lowering: the columns projected from a field are the ones it refers to, each following its
  walk (`projectField_refersTo`).
-/

import DfDerive.Lower.Accepted
import DfDerive.Spec.Columns

namespace DfDerive

open Lib

/-! ## The reference -/

/-- The way from a tuple to the leaf side of an element's wrappers. -/
def stepWalk (step : TupleProjectionStep) (shape : WrapperShape) : Walk :=
  (Walk.read (projectValue step.index step.outerSmartPtrDepth)).comp (.word shape)

mutual
/-- The columns of the elements from the position `index` on, of the tuples `w` leads to. -/
def elementsRefs (w : Walk) (carried : Bool) (column : String) (index : Nat) : List TupleElement → List ColumnRef
  | [] => []
  | element :: elements =>
    elementRefs w carried (fieldName column index) index element ++ elementsRefs w carried column (index + 1) elements

def elementRefs (w : Walk) (carried : Bool) (name : String) (index : Nat) : TupleElement → List ColumnRef
  | .mk leafSpec shape outerSmartPtrDepth =>
    leafRefs (w.comp (stepWalk ⟨index, outerSmartPtrDepth⟩ shape)) (carriedOption carried shape) .field name leafSpec

/-- The columns of the leaf `w` leads to. -/
def leafRefs (w : Walk) (carried : Bool) (policy : NestedNamePolicy) (name : String) : LeafSpec → List ColumnRef
  | .tuple elements => elementsRefs w carried name 0 elements
  | leafSpec => (TerminalLeafSpec.new leafSpec).toList.map fun leaf => ⟨name, policy, leaf.route, w, carried⟩
end

def FieldIR.walk (field : FieldIR) : Walk := (Walk.read field.root.value?).comp (.word field.wrapperShape)

def FieldIR.refs (field : FieldIR) : List ColumnRef :=
  leafRefs field.walk field.wrapperShape.hasLeafOption field.nestedNamePolicy (columnNameForIdent field.name) field.leafSpec

/-! ## Projection -/

/-- Where the projection of a tuple stands: inside tuples without wrappers, or at a tuple
    below the wrappers of its field. -/
inductive ProjectionAt (root : FieldSource) : WrapperShape → List TupleProjectionStep → Walk → Bool → Prop
  | bare (path : List TupleProjectionStep) :
    ProjectionAt root (.leaf .bare) path (.read fun row => (root.value? row).bind (pathValue path)) false
  | wrapped {shape : WrapperShape} (hn : shape.Normalized) (hne : shape ≠ .leaf .bare) :
    ProjectionAt root shape [] ((Walk.read root.value?).comp (.word shape)) shape.hasLeafOption

/-- A field's own tuple. -/
theorem ProjectionAt.field (root : FieldSource) {shape : WrapperShape} (hn : shape.Normalized) :
    ProjectionAt root shape [] ((Walk.read root.value?).comp (.word shape)) shape.hasLeafOption := by
  by_cases hbare : shape = .leaf .bare
  · subst hbare
    rw [Walk.comp_bare]
    have hread : root.value? = fun row => (root.value? row).bind (pathValue []) := by
      funext row
      exact (Option.bind_fun_some _).symm
    rw [hread]
    exact .bare []
  · exact .wrapped hn hbare

theorem pathValue_singleton (step : TupleProjectionStep) :
    pathValue [step] = projectValue step.index step.outerSmartPtrDepth := by
  funext v
  exact Option.bind_fun_some _

theorem pathValue_append (path : List TupleProjectionStep) (step : TupleProjectionStep) (v : Value) :
    pathValue (path ++ [step]) v = (pathValue path v).bind (projectValue step.index step.outerSmartPtrDepth) := by
  induction path generalizing v with
  | nil => exact congrFun (pathValue_singleton step) v
  | cons first path ih =>
    show (projectValue _ _ v).bind (pathValue (path ++ [step])) = ((projectValue _ _ v).bind (pathValue path)).bind _
    rw [Option.bind_assoc]
    exact congrArg _ (funext ih)

theorem projectValue_none (step : TupleProjectionStep) :
    (projectValue step.index step.outerSmartPtrDepth .none).getD .none = .none := rfl

/-- The walk to the elements of a nested tuple. -/
theorem bare_step (root : FieldSource) (path : List TupleProjectionStep) (step : TupleProjectionStep)
    (shape : WrapperShape) :
    (Walk.read fun row => (root.value? row).bind (pathValue path)).comp (stepWalk step shape) =
      (Walk.read fun row => (root.value? row).bind (pathValue (path ++ [step]))).comp (.word shape) := by
  rw [stepWalk, ← Walk.comp_assoc, Walk.read_comp_read _ _ (projectValue_none step)]
  have hpath : (fun row => ((root.value? row).bind (pathValue path)).bind
      (projectValue step.index step.outerSmartPtrDepth)) = fun row => (root.value? row).bind (pathValue (path ++ [step])) := by
    funext row
    rw [Option.bind_assoc]
    exact congrArg _ (funext fun v => (pathValue_append path step v).symm)
  rw [hpath]

/-- The first step of a chain below which there is an `Option` but no pointer first. -/
theorem normalized_optional {n : Nat} {access : AccessChain} (h : (WrapperShape.leaf (.optional n access)).Normalized) :
    ∃ steps, access.steps = .option :: steps := by
  obtain ⟨⟨hn, hpos⟩, hfirst⟩ := h
  rw [hn] at hpos
  cases hsteps : access.steps with
  | nil =>
    have hmem := optionLayers_pos.mp hpos
    rw [hsteps] at hmem
    cases hmem
  | cons s steps =>
    cases s with
    | option => exact ⟨steps, rfl⟩
    | smartPtr => exact absurd hsteps (hfirst steps)

/-- The column of an element is the one the reference means. -/
theorem projectTupleElement_refersTo {root : FieldSource} {parent : WrapperShape} {path : List TupleProjectionStep}
    {w : Walk} {carried : Bool} (hat : ProjectionAt root parent path w carried) (name : String)
    (step : TupleProjectionStep) {shape : WrapperShape} (hshape : shape.Normalized) (leafSpec : TerminalLeafSpec) :
    (projectTupleElement root name parent path step shape leafSpec).RefersTo
      ⟨name, .field, leafSpec.route, w.comp (stepWalk step shape), carriedOption carried shape⟩ := by
  cases hat with
  | bare path =>
    refine ⟨rfl, rfl, rfl, ?_⟩
    show ColumnIR.Follows _ (Walk.comp _ (stepWalk step shape)) _
    rw [bare_step, carriedOption_false]
    cases path with
    | nil => exact follows_tupleStatic ⟨⟨name, leafSpec, .field⟩, root, ⟨step, []⟩, shape⟩ hshape.counted rfl
    | cons first rest =>
      exact follows_tupleStatic ⟨⟨name, leafSpec, .field⟩, root, ⟨first, rest ++ [step]⟩, shape⟩ hshape.counted rfl
  | wrapped hn hne =>
    cases parent with
    | leaf s =>
      cases s with
      | bare => exact absurd rfl hne
      | optional n access =>
        obtain ⟨steps, hsteps⟩ := normalized_optional hn
        have hfollows := @follows_tupleParentOption
          ⟨⟨name, leafSpec, .field⟩, root, ⟨step, []⟩, access, composeOptionWithElement shape⟩ n steps shape hsteps rfl
          hshape.counted hshape.first rfl
        refine ⟨rfl, rfl, rfl, ?_⟩
        show ColumnIR.Follows _ (Walk.comp (Walk.comp _ _) (stepWalk step shape)) _
        rw [Walk.comp_assoc, stepWalk, ← pathValue_singleton]
        exact hfollows
    | vec layers =>
      have hfollows := @follows_tupleParentVec
        ⟨⟨name, leafSpec, .field⟩, root, step, layers.depth, layers.innerAccess, composeVecParentWithElement layers shape⟩
        layers shape rfl rfl rfl hn.counted hshape.counted hshape.first rfl
      refine ⟨rfl, rfl, rfl, ?_⟩
      show ColumnIR.Follows _ (Walk.comp (Walk.comp _ _) (stepWalk step shape)) _
      rw [Walk.comp_assoc]
      exact hfollows

/-- A leaf's columns and its references, one by one. -/
theorem terminal_forall₂ {leafSpec : LeafSpec} {column : TerminalLeafSpec → ColumnIR} {ref : TerminalLeafSpec → ColumnRef}
    (h : ∀ leaf, (column leaf).RefersTo (ref leaf)) :
    List.Forall₂ ColumnIR.RefersTo (terminalLeaf leafSpec column) ((TerminalLeafSpec.new leafSpec).toList.map ref) := by
  unfold terminalLeaf
  cases TerminalLeafSpec.new leafSpec with
  | none => exact .nil
  | some leaf => exact .cons (h leaf) .nil

mutual
theorem projectTupleElements_refersTo {root : FieldSource} {parent : WrapperShape} {path : List TupleProjectionStep}
    {w : Walk} {carried : Bool} (hat : ProjectionAt root parent path w carried) (column : String) : ∀ (index : Nat)
    (elements : List TupleElement), ElementsProjectable (parent = .leaf .bare) elements →
      List.Forall₂ ColumnIR.RefersTo (projectTupleElements root column parent path index elements)
        (elementsRefs w carried column index elements)
  | _, [], _ => .nil
  | index, element :: elements, h =>
    List.rel_append (projectElement_refersTo hat (fieldName column index) index element h.1)
      (projectTupleElements_refersTo hat column (index + 1) elements h.2)

theorem projectElement_refersTo {root : FieldSource} {parent : WrapperShape} {path : List TupleProjectionStep}
    {w : Walk} {carried : Bool} (hat : ProjectionAt root parent path w carried) (name : String) (index : Nat) :
    ∀ element : TupleElement, ElementProjectable (parent = .leaf .bare) element →
      List.Forall₂ ColumnIR.RefersTo (projectElement root name parent path index element)
        (elementRefs w carried name index element)
  | .mk leafSpec _ outerSmartPtrDepth, h =>
    projectElementLeaf_refersTo hat name ⟨index, outerSmartPtrDepth⟩ h.1 leafSpec h.2

theorem projectElementLeaf_refersTo {root : FieldSource} {parent : WrapperShape} {path : List TupleProjectionStep}
    {w : Walk} {carried : Bool} (hat : ProjectionAt root parent path w carried) (name : String)
    (step : TupleProjectionStep) {shape : WrapperShape} (hshape : shape.Normalized) : ∀ leafSpec : LeafSpec,
    LeafProjectable (parent = .leaf .bare ∧ shape = .leaf .bare) leafSpec →
      List.Forall₂ ColumnIR.RefersTo (projectElementLeaf root name parent path step shape leafSpec)
        (leafRefs (w.comp (stepWalk step shape)) (carriedOption carried shape) .field name leafSpec)
  | .tuple elements, h => by
    obtain ⟨⟨hparent, hbare⟩, helements⟩ := h
    subst hparent hbare
    cases hat with
    | wrapped hn hne => exact absurd rfl hne
    | bare path =>
      have hinner : ElementsProjectable (WrapperShape.leaf .bare = .leaf .bare) elements := by
        rw [eq_true (rfl : WrapperShape.leaf .bare = .leaf .bare)]
        exact helements
      have hrec := projectTupleElements_refersTo (@ProjectionAt.bare root (path ++ [step])) name 0 elements hinner
      show List.Forall₂ _ _ (elementsRefs _ _ _ _ _)
      rw [bare_step, Walk.comp_bare]
      exact hrec
  | .numeric _, _ | .string, _ | .bool, _ | .dateTime _, _ | .naiveDateTime _, _ | .naiveDate, _ | .naiveTime, _
  | .duration _ _, _ | .decimal _ _ _, _ | .asString _, _ | .asStr _, _ | .binary, _ | .struct _, _ | .generic _, _ =>
    terminal_forall₂ fun leaf => projectTupleElement_refersTo hat name step hshape leaf
end

/-- The columns of a field are the ones its reference means. -/
theorem projectField_refersTo {field : FieldIR} (h : field.Projectable) :
    List.Forall₂ ColumnIR.RefersTo (projectField field) field.refs := by
  obtain ⟨name, fieldIndex, leafSpec, shape, outerSmartPtrDepth, policy⟩ := field
  have hfield : ∀ leaf : TerminalLeafSpec,
      (ColumnIR.field ⟨⟨columnNameForIdent name, leaf, policy⟩, ⟨name, fieldIndex, outerSmartPtrDepth⟩, shape⟩).RefersTo
        ⟨columnNameForIdent name, policy, leaf.route,
          (Walk.read (FieldSource.value? ⟨name, fieldIndex, outerSmartPtrDepth⟩)).comp (.word shape), shape.hasLeafOption⟩ :=
    fun leaf => ⟨rfl, rfl, rfl, follows_field _ h.normalized.counted⟩
  cases leafSpec with
  | tuple elements => exact projectTupleElements_refersTo (.field _ h.normalized) _ 0 elements (h.elements elements rfl)
  | numeric _ | string | bool | dateTime _ | naiveDateTime _ | naiveDate | naiveTime | duration _ _ | decimal _ _ _
  | asString _ | asStr _ | binary | struct _ | generic _ => exact terminal_forall₂ hfield

end DfDerive
