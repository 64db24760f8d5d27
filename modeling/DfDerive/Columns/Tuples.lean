/-
  DfDerive.Columns.Tuples — columns of tuple fields.

  - `tupleField_projects`: the columns of an accepted tuple field are those of its leaves, and
    each holds what walking the field's wrappers, the path into the tuple and the element's
    wrappers gives.
  - `skeleton_cellOf`: below a field's own lists nothing but the leaves depends on the column,
    so the columns of one field have the same lists.
-/

import DfDerive.Columns.Nested
import DfDerive.Spec.Paths

namespace DfDerive

open Lib

/-! ## The reference -/

/-- The cell of a tuple's leaf: past the field's wrappers, along the path, past the element's wrappers. -/
def FieldIR.projectedCell (field : FieldIR) (l : ElementLeaf) (f : Value → Cell) (row : Value) : Cell :=
  cellOf (fun tuple => cellOf f l.shape.word ((pathValue l.path tuple).getD .none)) field.wrapperShape.word
    ((field.root.value? row).getD .none)

/-- The rows whose tuples have, along the path, an element of the leaf's type. -/
def FieldIR.ProjectedTyped (field : FieldIR) (l : ElementLeaf) (P : Value → Prop) (row : Value) : Prop :=
  ∃ v, field.root.value? row = some v ∧
    HasWord (fun tuple => ∃ u, pathValue l.path tuple = some u ∧ HasWord P l.shape.word u) field.wrapperShape.word v

/-- The walk of a tuple's leaf. -/
def FieldIR.leafWalk (field : FieldIR) (l : ElementLeaf) : Walk := field.walk.comp l.walk

theorem FieldIR.leafWalk_depth (field : FieldIR) (l : ElementLeaf) :
    (field.leafWalk l).depth = field.wrapperShape.vecDepth + l.shape.vecDepth := by
  show (0 + field.wrapperShape.vecDepth) + (0 + l.shape.vecDepth) = _
  omega

/-- The columns of a tuple field, by its leaves. -/
theorem projectField_leaves {field : FieldIR} (h : field.Projectable) {elements : List TupleElement}
    (htuple : field.leafSpec = .tuple elements) :
    List.Forall₂ (fun c l => c.RefersTo (l.ref field.walk field.wrapperShape.hasLeafOption (columnNameForIdent field.name)))
      (projectField field) (elementsLeaves [] 0 elements) := by
  have hrefs := projectField_refersTo h
  rw [FieldIR.refs, htuple] at hrefs
  rw [← List.forall₂_map_right_iff (f := ElementLeaf.ref _ _ _), ← elementsRefs_eq _ _ _ (h.elements elements htuple)]
  exact hrefs

/-! ## Lists of a field's own -/

/-- The first `n` list layers of a cell. -/
def skeleton : Nat → Cell → Nested Unit
  | 0, _ => .val ()
  | _ + 1, .null => .null
  | _ + 1, .val _ => .val ()
  | n + 1, .list cells => .list (cells.map (skeleton n))

/-- The lists of a word do not depend on what is below them. -/
theorem skeleton_cellOf (f g : Value → Cell) : ∀ (w : List RawWrapper) (v : Value),
    skeleton (w.countP (· == .vec)) (cellOf f w v) = skeleton (w.countP (· == .vec)) (cellOf g w v) := by
  intro w
  induction w with
  | nil =>
    intro v
    rfl
  | cons s w ih =>
    intro v
    cases s with
    | option =>
      rw [List.countP_cons_of_neg (by decide)]
      cases v <;> first | rfl | exact ih _
    | smartPtr =>
      rw [List.countP_cons_of_neg (by decide)]
      cases v <;> first | rfl | exact ih _
    | vec =>
      rw [List.countP_cons_of_pos (by decide)]
      cases v with
      | vec vs =>
        simp only [cellOf, skeleton, List.map_map]
        exact congrArg Nested.list (List.map_congr_left fun u _ => ih u)
      | _ => rfl

theorem AccessChain.word_countP (c : AccessChain) : c.word.countP (· == .vec) = 0 := by
  rw [AccessChain.word, List.countP_map, List.countP_eq_zero]
  intro s _
  cases s <;> decide

theorem layersWord_countP : ∀ ls : List VecLayerSpec, (ls.flatMap VecLayerSpec.word).countP (· == .vec) = ls.length
  | [] => rfl
  | l :: ls => by
    rw [List.flatMap_cons, List.countP_append, layersWord_countP ls, VecLayerSpec.word, List.countP_append,
      AccessChain.word_countP]
    simp only [List.countP_singleton, beq_self_eq_true, if_true, List.length_cons]
    omega

/-- A shape's list layers are the `Vec`s of its word. -/
theorem WrapperShape.word_countP (shape : WrapperShape) : shape.word.countP (· == .vec) = shape.vecDepth := by
  cases shape with
  | leaf s =>
    show s.word.countP _ = 0
    rw [← s.word_access]
    exact AccessChain.word_countP s.access
  | vec s =>
    show s.word.countP _ = s.depth
    rw [VecLayers.word, List.countP_append, layersWord_countP, AccessChain.word_countP, NonEmpty.length_toList]
    rfl

theorem FieldIR.projectedCell_skeleton (field : FieldIR) (l l' : ElementLeaf) (f g : Value → Cell) (row : Value) :
    skeleton field.wrapperShape.vecDepth (field.projectedCell l f row) =
      skeleton field.wrapperShape.vecDepth (field.projectedCell l' g row) := by
  rw [← WrapperShape.word_countP]
  exact skeleton_cellOf _ _ _ _

/-! ## Columns of a tuple field -/

section

variable {field : FieldIR} {c : ColumnIR} {l : ElementLeaf} {env : Env} {items : List Operand}

/-- A column of a tuple's leaf, over any nested types that work row by row. -/
def ProjectsLeaf (field : FieldIR) (c : ColumnIR) (l : ElementLeaf) : Prop :=
  ∀ (env : Env) (items : List Operand), RowItems items →
    (∀ leaf, l.leaf.route = .primitive leaf → (∀ it ∈ items, field.ProjectedTyped l (LeafTyped leaf) it.erase) →
      Run.Spec (c.run env items) ((field.leafWalk l).fits (AllEncode env.traits leaf) (items.map Operand.erase)) fun out =>
        ∃ s, out = [s] ∧ s.name = pathName (columnNameForIdent field.name) l.path ∧
          s.dtype = wrapListLayers leaf.dtype (field.wrapperShape.vecDepth + l.shape.vecDepth) ∧
          s.cells = items.map fun it => field.projectedCell l
            (columnCell env.traits leaf (field.wrapperShape.vecDepth + l.shape.vecDepth)) it.erase) ∧
    (∀ nested P cols, l.leaf.route = .nested nested → (env.impl nested.ty).RowByRow P cols →
      (∀ it ∈ items, field.ProjectedTyped l P it.erase) →
        ∃ used : Prop, (¬ used → (items.map Operand.erase).flatMap (field.leafWalk l).leaves = []) ∧
          Runs Fault.Reported (c.run env items)
            ((field.leafWalk l).fits (PositionsFit (carriedOption field.wrapperShape.hasLeafOption l.shape))
                (items.map Operand.erase) ∧
              NestedAnswers ⟨env.impl nested.ty, pathName (columnNameForIdent field.name) l.path, .field⟩
                ((items.map Operand.erase).flatMap (field.leafWalk l).leaves) used)
            fun out => List.Forall₂ (fun col s =>
              s.name = pathName (columnNameForIdent field.name) l.path ++ "." ++ col.name ∧
                s.dtype = wrapListLayers col.dtype (field.wrapperShape.vecDepth + l.shape.vecDepth) ∧
                s.cells = items.map fun it => field.projectedCell l col.cell it.erase) cols out)

theorem ColumnIR.RefersTo.projectsLeaf
    (h : c.RefersTo (l.ref field.walk field.wrapperShape.hasLeafOption (columnNameForIdent field.name))) :
    ProjectsLeaf field c l := by
  have hfollows : c.Follows (field.leafWalk l) (carriedOption field.wrapperShape.hasLeafOption l.shape) := h.follows
  have hroute : c.leafSpec.route = l.leaf.route := h.route
  have hname : c.name = pathName (columnNameForIdent field.name) l.path := h.name
  have hpolicy : c.nestedNamePolicy = .field := h.policy
  refine fun env items hrows => ⟨fun leaf hleaf ht => ?_, fun nested P cols hnested hrow ht => ?_⟩
  · refine Runs.mono (hfollows.run_primitive env (hroute.trans hleaf) hrows ht) fun _ out hout => ?_
    obtain ⟨s, rfl, hn, hd, hcells⟩ := hout
    rw [field.leafWalk_depth l] at hd hcells
    refine ⟨s, rfl, hn.trans hname, hd, ?_⟩
    rw [hcells, List.map_map]
    rfl
  · obtain ⟨used, hused, hrun⟩ := hfollows.run_rowByRow env (hroute.trans hnested) hrow hrows ht
    rw [hname, hpolicy] at hrun
    refine ⟨used, hused, Runs.mono hrun fun _ out hout => hout.imp fun col s hs => ?_⟩
    obtain ⟨hn, hd, hcells⟩ := hs
    rw [field.leafWalk_depth l] at hd
    refine ⟨hn, hd, ?_⟩
    rw [hcells, List.map_map]
    rfl

/-- The lists of a column's series are the field's own down to the tuples. -/
theorem ProjectsLeaf.skeleton_eq (h : ProjectsLeaf field c l) {P : TypePath → Value → Prop}
    {cols : TypePath → List ColumnSpec} (himpl : ∀ ty, (env.impl ty).RowByRow (P ty) (cols ty)) (hrows : RowItems items)
    (ht : ∀ it ∈ items, field.ProjectedTyped l (l.leaf.route.typed P) it.erase) {out : List Series}
    (hout : c.run env items = .ok out) : ∀ s ∈ out, s.cells.map (skeleton field.wrapperShape.vecDepth) =
      items.map fun it => skeleton field.wrapperShape.vecDepth (field.projectedCell l (fun _ => .null) it.erase) := by
  have hcells : ∀ (s : Series) (f : Value → Cell), s.cells = items.map (fun it => field.projectedCell l f it.erase) →
      s.cells.map (skeleton field.wrapperShape.vecDepth) =
        items.map fun it => skeleton field.wrapperShape.vecDepth (field.projectedCell l (fun _ => .null) it.erase) := by
    intro s f hs
    rw [hs, List.map_map]
    exact List.map_congr_left fun it _ => field.projectedCell_skeleton l l f _ it.erase
  intro s hs
  cases hroute : l.leaf.route with
  | primitive leaf =>
    rw [hroute] at ht
    obtain ⟨-, t, rfl, -, -, hc⟩ := ((h env items hrows).1 leaf hroute ht).of_eq_ok hout
    rw [List.mem_singleton.mp hs]
    exact hcells t _ hc
  | nested nested =>
    rw [hroute] at ht
    obtain ⟨_, -, hrun⟩ := (h env items hrows).2 nested _ _ hroute (himpl nested.ty) ht
    have hcols := (hrun.of_eq_ok hout).2
    obtain ⟨col, -, -, -, hc⟩ := exists_related hcols.flip s hs
    exact hcells s _ hc

end

/-- The columns of an accepted tuple field: one for every leaf, depth first. An absent tuple is
    null at its place, and so is an absent element; an empty `Vec` is an empty list. Columns of
    one field have the same lists, of the same lengths and validity, down to the tuples. -/
theorem tupleField_projects {decl : FieldDecl} {name : String} {fieldIndex : Option Nat} {field : FieldIR}
    {elements : List TupleElement} (hlowered : lowerField decl name fieldIndex = .ok (some field))
    (htuple : field.leafSpec = .tuple elements) :
    List.Forall₂ (ProjectsLeaf field) (projectField field) (elementsLeaves [] 0 elements) ∧
    (∀ (f : Value → Cell) (access : AccessChain) (v : Value), HasWord (fun _ => True) access.word v →
      cellOf f access.word v = (chainFold access.steps v).elim .null f) ∧
    (∀ (f : Value → Cell) (access : AccessChain) (w : List RawWrapper) (v : Value),
      HasWord (fun _ => True) (access.word ++ .vec :: w) v →
        (cellOf f (access.word ++ .vec :: w) v = .null ↔ chainFold access.steps v = none) ∧
          (cellOf f (access.word ++ .vec :: w) v = .list [] ↔ chainFold access.steps v = some (.vec []))) ∧
    (∀ (env : Env) (P : TypePath → Value → Prop) (cols : TypePath → List ColumnSpec) (items : List Operand),
      (∀ ty, (env.impl ty).RowByRow (P ty) (cols ty)) → RowItems items →
        (∀ l ∈ elementsLeaves [] 0 elements, ∀ it ∈ items, field.ProjectedTyped l (l.leaf.route.typed P) it.erase) →
          ∀ c ∈ projectField field, ∀ c' ∈ projectField field, ∀ out out', c.run env items = .ok out →
            c'.run env items = .ok out' → ∀ s ∈ out, ∀ s' ∈ out',
              s.cells.map (skeleton field.wrapperShape.vecDepth) = s'.cells.map (skeleton field.wrapperShape.vecDepth)) := by
  have hleaves := (projectField_leaves (lowerField_projectable hlowered) htuple).imp fun c l h => h.projectsLeaf
  refine ⟨hleaves, fun f access v hv => cellOf_chain f hv, fun f access w v hv => cellOf_absent_or_empty f access w hv,
    fun env P cols items himpl hrows ht c hc c' hc' out out' hout hout' s hs s' hs' => ?_⟩
  obtain ⟨l, hl, hcl⟩ := exists_related hleaves c hc
  obtain ⟨l', hl', hcl'⟩ := exists_related hleaves c' hc'
  rw [hcl.skeleton_eq himpl hrows (ht l hl) hout s hs, hcl'.skeleton_eq himpl hrows (ht l' hl') hout' s' hs']
  exact List.map_congr_left fun it _ => field.projectedCell_skeleton l l' _ _ it.erase

/-- `marks: Option<Vec<(bool, Option<bool>)>>` -/
def marksField : FieldIR :=
  ⟨"marks", none, .tuple [.mk .bool (.leaf .bare) 0, .mk .bool (normalizeWrappers [.option]) 0],
    normalizeWrappers [.option, .vec], 0, .field⟩

def mark (first : Bool) (second : Value) : Value := .tuple [.scalar (.bool first), second]

def marksRows : List Value :=
  [.struct [("marks", .some (.vec [mark true .none, mark false (.some (.scalar (.bool true)))]))],
    .struct [("marks", .none)]]

def marksEnv : Env := ⟨brokenTraits, fun _ => pointTree.impl brokenTraits⟩

theorem marksRows_typed {l : ElementLeaf} (h : l ∈ elementsLeaves [] 0 [.mk .bool (.leaf .bare) 0,
    .mk .bool (normalizeWrappers [.option]) 0]) : ∀ it ∈ borrowedItems marksRows,
      marksField.ProjectedTyped l (LeafTyped .bool) it.erase := by
  intro it hit
  rcases List.mem_cons.mp h with rfl | h
  · rcases List.mem_cons.mp hit with rfl | hit
    · refine ⟨_, rfl, fun tuple htuple => ?_⟩
      rcases List.mem_cons.mp htuple with rfl | htuple
      · exact ⟨_, rfl, true, rfl⟩
      · rw [List.mem_singleton.mp htuple]
        exact ⟨_, rfl, false, rfl⟩
    · rw [List.mem_singleton.mp hit]
      exact ⟨_, rfl, trivial⟩
  · rw [List.mem_singleton.mp h]
    rcases List.mem_cons.mp hit with rfl | hit
    · refine ⟨_, rfl, fun tuple htuple => ?_⟩
      rcases List.mem_cons.mp htuple with rfl | htuple
      · exact ⟨_, rfl, trivial⟩
      · rw [List.mem_singleton.mp htuple]
        exact ⟨_, rfl, true, rfl⟩
    · rw [List.mem_singleton.mp hit]
      exact ⟨_, rfl, trivial⟩

/-- The columns of `marks`: the absent list is null in both, the absent element in the second. -/
theorem tupleField_projects_marks : ∃ c c' s s', projectField marksField = [c, c'] ∧
    c.run marksEnv (borrowedItems marksRows) = .ok [s] ∧
    c'.run marksEnv (borrowedItems marksRows) = .ok [s'] ∧
    s.cells = [.list [.val (.bool true), .val (.bool false)], .null] ∧
    s'.cells = [.list [.null, .val (.bool true)], .null] := by
  have hprojects := (tupleField_projects (show lowerField ⟨.mk [.option, .vec] (.tuple [.mk [] (.leaf .bool),
    .mk [.option] (.leaf .bool)]), .include .default⟩ "marks" none = .ok (some marksField) from rfl) rfl).1
  cases hprojects with
  | cons h hrest =>
    cases hrest with
    | cons h' hnil =>
      cases hnil
      have hl := marksRows_typed List.mem_cons_self
      have hl' := marksRows_typed (List.mem_cons_of_mem _ (List.mem_singleton_self _))
      have hrows : RowItems (borrowedItems marksRows) := rowItems_borrowed _
      obtain ⟨_, hs, t, rfl, -, -, hcells⟩ := Run.Spec.of_map ((h marksEnv _ hrows).1 .bool rfl hl) List.length (b := 1) rfl
      obtain ⟨_, hs', t', rfl, -, -, hcells'⟩ :=
        Run.Spec.of_map ((h' marksEnv _ hrows).1 .bool rfl hl') List.length (b := 1) rfl
      exact ⟨_, _, t, t', rfl, hs, hs', hcells, hcells'⟩

end DfDerive
