/-
  DfDerive.Spec.Paths — the leaves of a tuple, by the paths to them.

  A tuple's columns are those of its leaves, depth first: a leaf is reached by reading one
  element of each tuple on the way (`elementsLeaves`), and lies below the wrappers of the last
  one, since no nested tuple has any. `elementsRefs_eq`: the reference of a tuple field is the
  walk past the field's wrappers, along the path, and past the element's wrappers.
-/

import DfDerive.Spec.Names

namespace DfDerive

open Lib

/-- A leaf of a tuple, with the wrappers right above it. -/
structure ElementLeaf where
  path : List TupleProjectionStep
  shape : WrapperShape
  leaf : TerminalLeafSpec

mutual
/-- The leaves below the elements from the position `index` on, of the tuple at `path`. -/
def elementsLeaves (path : List TupleProjectionStep) (index : Nat) : List TupleElement → List ElementLeaf
  | [] => []
  | element :: elements => elementLeaves path index element ++ elementsLeaves path (index + 1) elements

def elementLeaves (path : List TupleProjectionStep) (index : Nat) : TupleElement → List ElementLeaf
  | .mk leafSpec shape outerSmartPtrDepth => leafLeaves (path ++ [⟨index, outerSmartPtrDepth⟩]) shape leafSpec

def leafLeaves (path : List TupleProjectionStep) (shape : WrapperShape) : LeafSpec → List ElementLeaf
  | .tuple elements => elementsLeaves path 0 elements
  | leafSpec => (TerminalLeafSpec.new leafSpec).toList.map fun leaf => ⟨path, shape, leaf⟩
end

/-- The name of the column at a path below the column `column`. -/
def pathName (column : String) (path : List TupleProjectionStep) : String :=
  path.foldl (fun name step => fieldName name step.index) column

theorem pathName_append (column : String) (path : List TupleProjectionStep) (step : TupleProjectionStep) :
    pathName column (path ++ [step]) = fieldName (pathName column path) step.index := by
  rw [pathName, List.foldl_append]
  rfl

/-- From a tuple along a path, past the wrappers of the element there. -/
def ElementLeaf.walk (l : ElementLeaf) : Walk := (Walk.read (pathValue l.path)).comp (.word l.shape)

/-- The reference of a leaf of the tuples `w` leads to. -/
def ElementLeaf.ref (w : Walk) (carried : Bool) (column : String) (l : ElementLeaf) : ColumnRef :=
  ⟨pathName column l.path, .field, l.leaf.route, w.comp l.walk, carriedOption carried l.shape⟩

theorem Walk.comp_read_some (w : Walk) : w.comp (.read some) = w := by
  refine Walk.ext ?_ rfl ?_ ?_ rfl
  · funext P v
    have hread : (Walk.read some).typed P = P := by
      funext u
      exact propext ⟨fun ⟨_, hx, hP⟩ => Option.some.inj hx ▸ hP, fun hP => ⟨u, rfl, hP⟩⟩
    show w.typed ((Walk.read some).typed P) v = _
    rw [hread]
  · funext v
    show (w.leaves v).flatMap (fun u => [u]) = w.leaves v
    exact List.flatMap_singleton' _
  · funext F vs
    have hread : (Walk.read some).fits F = F := by
      funext us
      exact congrArg F (List.map_id us)
    show w.fits ((Walk.read some).fits F) vs = _
    rw [hread]

/-- One step further along a path, and past the wrappers there. -/
theorem path_step (w : Walk) (path : List TupleProjectionStep) (step : TupleProjectionStep) (shape : WrapperShape) :
    (w.comp (.read (pathValue path))).comp (stepWalk step shape) =
      w.comp ((Walk.read (pathValue (path ++ [step]))).comp (.word shape)) := by
  rw [Walk.comp_assoc, stepWalk, ← Walk.comp_assoc (.read (pathValue path)), Walk.read_comp_read _ _ (projectValue_none step)]
  have hpath : (fun v => (pathValue path v).bind (projectValue step.index step.outerSmartPtrDepth)) =
      pathValue (path ++ [step]) := by
    funext v
    exact (pathValue_append path step v).symm
  rw [hpath]

theorem carriedOption_bare (carried : Bool) : carriedOption carried (.leaf .bare) = carried := Bool.or_false carried

theorem terminal_refs (w : Walk) (carried : Bool) (column : String) (path : List TupleProjectionStep) (shape : WrapperShape)
    (leafSpec : LeafSpec) : ((TerminalLeafSpec.new leafSpec).toList.map fun leaf => (⟨pathName column path, .field, leaf.route,
      w.comp ((Walk.read (pathValue path)).comp (.word shape)), carriedOption carried shape⟩ : ColumnRef)) =
    ((TerminalLeafSpec.new leafSpec).toList.map fun leaf => (⟨path, shape, leaf⟩ : ElementLeaf)).map
      (ElementLeaf.ref w carried column) := by
  rw [List.map_map]
  rfl

mutual
theorem elementsRefs_path (w : Walk) (carried : Bool) (column : String) (path : List TupleProjectionStep) {bare : Prop} :
    ∀ (index : Nat) (elements : List TupleElement), ElementsProjectable bare elements →
      elementsRefs (w.comp (.read (pathValue path))) carried (pathName column path) index elements =
        (elementsLeaves path index elements).map (ElementLeaf.ref w carried column)
  | _, [], _ => rfl
  | index, element :: elements, h => by
    rw [elementsRefs, elementsLeaves, List.map_append, elementRefs_path w carried column path index element h.1,
      elementsRefs_path w carried column path (index + 1) elements h.2]

theorem elementRefs_path (w : Walk) (carried : Bool) (column : String) (path : List TupleProjectionStep) {bare : Prop}
    (index : Nat) : ∀ element : TupleElement, ElementProjectable bare element →
      elementRefs (w.comp (.read (pathValue path))) carried (fieldName (pathName column path) index) index element =
        (elementLeaves path index element).map (ElementLeaf.ref w carried column)
  | .mk leafSpec shape outerSmartPtrDepth, h => by
    have hname := (pathName_append column path ⟨index, outerSmartPtrDepth⟩).symm
    rw [elementRefs, elementLeaves, path_step, hname]
    exact leafRefs_path w carried column _ shape leafSpec h.2

theorem leafRefs_path (w : Walk) (carried : Bool) (column : String) (path : List TupleProjectionStep) (shape : WrapperShape)
    {bare : Prop} : ∀ leafSpec : LeafSpec, LeafProjectable (bare ∧ shape = .leaf .bare) leafSpec →
      leafRefs (w.comp ((Walk.read (pathValue path)).comp (.word shape))) (carriedOption carried shape) .field
        (pathName column path) leafSpec = (leafLeaves path shape leafSpec).map (ElementLeaf.ref w carried column)
  | .tuple elements, h => by
    obtain ⟨⟨-, rfl⟩, helements⟩ := h
    rw [leafRefs, leafLeaves, Walk.comp_bare, carriedOption_bare]
    exact elementsRefs_path w carried column path 0 elements helements
  | .numeric _, _ | .string, _ | .bool, _ | .dateTime _, _ | .naiveDateTime _, _ | .naiveDate, _ | .naiveTime, _
  | .duration _ _, _ | .decimal _ _ _, _ | .asString _, _ | .asStr _, _ | .binary, _ | .struct _, _ | .generic _, _ =>
    terminal_refs w carried column path shape _
end

/-- The reference of a tuple is the one of its leaves, each at its path. -/
theorem elementsRefs_eq (w : Walk) (carried : Bool) (column : String) {bare : Prop} {elements : List TupleElement}
    (h : ElementsProjectable bare elements) :
    elementsRefs w carried column 0 elements = (elementsLeaves [] 0 elements).map (ElementLeaf.ref w carried column) := by
  have hpath := elementsRefs_path w carried column [] 0 elements h
  have hnil : pathValue [] = some := rfl
  rw [hnil, Walk.comp_read_some] at hpath
  exact hpath

end DfDerive
