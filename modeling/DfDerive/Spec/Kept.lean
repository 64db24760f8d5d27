/-
  DfDerive.Spec.Kept — when two values have one cell.

  A column forgets pointers, and which of several `Option`s on the way to a list or a leaf was
  `None`; it keeps the lists and their lengths. `Indistinct` says so of the values of a word,
  and `cellOf_eq_iff` that it is exactly what the cells of two values tell.
  A `PathStep` reads a field or an element, or passes the wrappers of a shape; the walks of
  columns are paths (`leafRefs_paths`).
-/

import DfDerive.Spec.Fields

namespace DfDerive

open Lib

/-! ## Words -/

/-- On the way to the first list an `Option` is absent, or the leaf is null. -/
def Absent (null : Value → Prop) : List RawWrapper → Value → Prop
  | [], v => null v
  | .option :: _, .none => True
  | .option :: w, .some v => Absent null w v
  | .smartPtr :: w, .ptr v => Absent null w v
  | _, _ => False

/-- The values have the same lists, absent where the other is, and the same leaves. -/
def Indistinct (same : Value → Value → Prop) (null : Value → Prop) : List RawWrapper → Value → Value → Prop
  | [], v, v' => same v v'
  | .option :: w, .some v, .some v' => Indistinct same null w v v'
  | .option :: w, .some v, .none => Absent null w v
  | .option :: w, .none, .some v => Absent null w v
  | .option :: _, .none, .none => True
  | .smartPtr :: w, .ptr v, .ptr v' => Indistinct same null w v v'
  | .vec :: w, .vec vs, .vec vs' => List.Forall₂ (Indistinct same null w) vs vs'
  | _, _, _ => False

theorem map_eq_map_iff {α β : Type} {f : α → β} {as bs : List α} :
    as.map f = bs.map f ↔ List.Forall₂ (fun a b => f a = f b) as bs := by
  rw [← List.forall₂_eq_eq_eq, List.forall₂_map_left_iff, List.forall₂_map_right_iff]

theorem forall₂_congr_mem {α β : Type} {R S : α → β → Prop} : ∀ {as : List α} {bs : List β},
    (∀ a ∈ as, ∀ b ∈ bs, (R a b ↔ S a b)) → (List.Forall₂ R as bs ↔ List.Forall₂ S as bs)
  | [], bs, _ => by rw [List.forall₂_nil_left_iff, List.forall₂_nil_left_iff]
  | a :: as, [], _ => ⟨nofun, nofun⟩
  | a :: as, b :: bs, h => by
    rw [List.forall₂_cons, List.forall₂_cons, h a List.mem_cons_self b List.mem_cons_self,
      forall₂_congr_mem fun a' ha b' hb => h a' (List.mem_cons_of_mem _ ha) b' (List.mem_cons_of_mem _ hb)]

section

variable {P : Value → Prop} {f : Value → Cell} {same : Value → Value → Prop} {null : Value → Prop}

theorem cellOf_null_iff (hnull : ∀ u, P u → (f u = .null ↔ null u)) : ∀ {w : List RawWrapper} {v : Value},
    HasWord P w v → (cellOf f w v = .null ↔ Absent null w v)
  | [], v, h => hnull v h
  | .option :: _, .none, _ => iff_of_true rfl trivial
  | .option :: w, .some v, h => cellOf_null_iff hnull (w := w) (v := v) h
  | .smartPtr :: w, .ptr v, h => cellOf_null_iff hnull (w := w) (v := v) h
  | .vec :: _, .vec _, _ => iff_of_false nofun id

/-- Two values have one cell exactly when they are indistinct. -/
theorem cellOf_eq_iff (hsame : ∀ u u', P u → P u' → (f u = f u' ↔ same u u')) (hnull : ∀ u, P u → (f u = .null ↔ null u)) :
    ∀ {w : List RawWrapper} {v v' : Value}, HasWord P w v → HasWord P w v' →
      (cellOf f w v = cellOf f w v' ↔ Indistinct same null w v v')
  | [], v, v', h, h' => hsame v v' h h'
  | .option :: _, .none, .none, _, _ => iff_of_true rfl trivial
  | .option :: w, .none, .some v, _, h => eq_comm.trans (cellOf_null_iff hnull (w := w) (v := v) h)
  | .option :: w, .some v, .none, h, _ => cellOf_null_iff hnull (w := w) (v := v) h
  | .option :: w, .some v, .some v', h, h' => @cellOf_eq_iff hsame hnull w v v' h h'
  | .smartPtr :: w, .ptr v, .ptr v', h, h' => @cellOf_eq_iff hsame hnull w v v' h h'
  | .vec :: w, .vec vs, .vec vs', h, h' => by
    have hlists : cellOf f (.vec :: w) (.vec vs) = cellOf f (.vec :: w) (.vec vs') ↔
        vs.map (cellOf f w) = vs'.map (cellOf f w) := by
      rw [cellOf, cellOf, Nested.list.injEq]
    rw [hlists, map_eq_map_iff, Indistinct]
    exact forall₂_congr_mem fun v hv v' hv' => cellOf_eq_iff hsame hnull (h v hv) (h' v' hv')

end

/-! ## Paths -/

inductive PathStep where
  /-- A field of a struct, or an element of a tuple. -/
  | read (f : Value → Option Value)
  | wrappers (shape : WrapperShape)

def PathStep.walk : PathStep → Walk
  | read f => .read f
  | wrappers shape => .word shape

def pathWalk : List PathStep → Walk
  | [] => .word (.leaf .bare)
  | step :: path => step.walk.comp (pathWalk path)

def PathAbsent (null : Value → Prop) : List PathStep → Value → Prop
  | [], v => null v
  | .read f :: path, v => PathAbsent null path ((f v).getD .none)
  | .wrappers shape :: path, v => Absent (PathAbsent null path) shape.word v

/-- Indistinct at the end of a path. -/
def PathIndistinct (same : Value → Value → Prop) (null : Value → Prop) : List PathStep → Value → Value → Prop
  | [], v, v' => same v v'
  | .read f :: path, v, v' => PathIndistinct same null path ((f v).getD .none) ((f v').getD .none)
  | .wrappers shape :: path, v, v' => Indistinct (PathIndistinct same null path) (PathAbsent null path) shape.word v v'

theorem Walk.bare_comp (w : Walk) : (Walk.word (.leaf .bare)).comp w = w := by
  refine Walk.ext rfl rfl ?_ rfl (Nat.zero_add _)
  funext v
  show [v].flatMap w.leaves = w.leaves v
  exact List.flatMap_singleton _ _

theorem pathWalk_append : ∀ path path' : List PathStep, pathWalk (path ++ path') = (pathWalk path).comp (pathWalk path')
  | [], path' => (Walk.bare_comp _).symm
  | step :: path, path' => by
    rw [List.cons_append, pathWalk, pathWalk, pathWalk_append path path', Walk.comp_assoc]

section

variable {P : Value → Prop} {f : Value → Cell} {same : Value → Value → Prop} {null : Value → Prop}

theorem pathWalk_null_iff (hnull : ∀ u, P u → (f u = .null ↔ null u)) : ∀ {path : List PathStep} {v : Value},
    (pathWalk path).typed P v → ((pathWalk path).cell f v = .null ↔ PathAbsent null path v)
  | [], v, h => hnull v h
  | .read g :: path, v, h => by
    obtain ⟨x, hx, hP⟩ := h
    show (pathWalk path).cell f ((g v).getD .none) = .null ↔ PathAbsent null path ((g v).getD .none)
    rw [hx]
    exact pathWalk_null_iff hnull hP
  | .wrappers shape :: path, v, h => cellOf_null_iff (fun _ hu => pathWalk_null_iff hnull hu) h

theorem pathWalk_eq_iff (hsame : ∀ u u', P u → P u' → (f u = f u' ↔ same u u')) (hnull : ∀ u, P u → (f u = .null ↔ null u)) :
    ∀ {path : List PathStep} {v v' : Value}, (pathWalk path).typed P v → (pathWalk path).typed P v' →
      ((pathWalk path).cell f v = (pathWalk path).cell f v' ↔ PathIndistinct same null path v v')
  | [], v, v', h, h' => hsame v v' h h'
  | .read g :: path, v, v', h, h' => by
    obtain ⟨x, hx, hP⟩ := h
    obtain ⟨x', hx', hP'⟩ := h'
    show (pathWalk path).cell f ((g v).getD .none) = (pathWalk path).cell f ((g v').getD .none) ↔
      PathIndistinct same null path ((g v).getD .none) ((g v').getD .none)
    rw [hx, hx']
    exact pathWalk_eq_iff hsame hnull hP hP'
  | .wrappers shape :: path, v, v', h, h' =>
    cellOf_eq_iff (fun _ _ hu hu' => pathWalk_eq_iff hsame hnull hu hu') (fun _ hu => pathWalk_null_iff hnull hu) h h'

end

/-! ## The paths of a field -/

mutual
/-- The paths to the leaves of the elements from the position `index` on. -/
def elementsPaths (path : List PathStep) (index : Nat) : List TupleElement → List (List PathStep × TerminalLeafRoute)
  | [] => []
  | element :: elements => elementPaths path index element ++ elementsPaths path (index + 1) elements

def elementPaths (path : List PathStep) (index : Nat) : TupleElement → List (List PathStep × TerminalLeafRoute)
  | .mk leafSpec shape outerSmartPtrDepth =>
    leafPaths (path ++ [.read (projectValue index outerSmartPtrDepth), .wrappers shape]) leafSpec

def leafPaths (path : List PathStep) : LeafSpec → List (List PathStep × TerminalLeafRoute)
  | .tuple elements => elementsPaths path 0 elements
  | leafSpec => (TerminalLeafSpec.new leafSpec).toList.map fun leaf => (path, leaf.route)
end

def FieldIR.paths (field : FieldIR) : List (List PathStep × TerminalLeafRoute) :=
  leafPaths [.read field.root.value?, .wrappers field.wrapperShape] field.leafSpec

/-- Where a reference column leads, and to what. -/
def ColumnRef.target (r : ColumnRef) : Walk × TerminalLeafRoute := (r.walk, r.route)

def pathTarget (p : List PathStep × TerminalLeafRoute) : Walk × TerminalLeafRoute := (pathWalk p.1, p.2)

mutual
theorem elementsRefs_paths {path : List PathStep} {w : Walk} (hw : pathWalk path = w) (carried : Bool) (column : String) :
    ∀ (index : Nat) (elements : List TupleElement),
      (elementsRefs w carried column index elements).map ColumnRef.target = (elementsPaths path index elements).map pathTarget
  | _, [] => rfl
  | index, element :: elements => by
    rw [elementsRefs, elementsPaths, List.map_append, List.map_append,
      elementRefs_paths hw carried (fieldName column index) index element,
      elementsRefs_paths hw carried column (index + 1) elements]

theorem elementRefs_paths {path : List PathStep} {w : Walk} (hw : pathWalk path = w) (carried : Bool) (name : String)
    (index : Nat) : ∀ element : TupleElement,
      (elementRefs w carried name index element).map ColumnRef.target = (elementPaths path index element).map pathTarget
  | .mk leafSpec shape outerSmartPtrDepth => by
    have hstep : pathWalk (path ++ [.read (projectValue index outerSmartPtrDepth), .wrappers shape]) =
        w.comp (stepWalk ⟨index, outerSmartPtrDepth⟩ shape) := by
      rw [pathWalk_append, hw, pathWalk, pathWalk, pathWalk, Walk.comp_bare]
      rfl
    exact leafRefs_paths hstep _ _ _ leafSpec

theorem leafRefs_paths {path : List PathStep} {w : Walk} (hw : pathWalk path = w) (carried : Bool) (policy : NestedNamePolicy)
    (name : String) : ∀ leafSpec : LeafSpec,
      (leafRefs w carried policy name leafSpec).map ColumnRef.target = (leafPaths path leafSpec).map pathTarget
  | .tuple elements => elementsRefs_paths hw carried name 0 elements
  | .numeric _ | .string | .bool | .binary | .asString _ | .asStr _ | .dateTime _ | .naiveDateTime _ | .naiveDate | .naiveTime
  | .duration _ _ | .decimal _ _ _ | .struct _ | .generic _ => by
    simp only [leafRefs, leafPaths, List.map_map]
    subst hw
    rfl
end

theorem FieldIR.refs_paths (field : FieldIR) : field.refs.map ColumnRef.target = field.paths.map pathTarget := by
  refine leafRefs_paths ?_ _ _ _ _
  rw [pathWalk, pathWalk, pathWalk, Walk.comp_bare]
  rfl

end DfDerive
