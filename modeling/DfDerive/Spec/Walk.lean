/-
  DfDerive.Spec.Walk — the way from a row to the leaves of a column.

  A field is read, its wrappers are passed, an element of a tuple is projected, and so on
  down to the leaves. A `Walk` is such a way: what it says of the types of rows, the cell of
  a row given the cells of its leaves, the leaves in order, and the list sizes it bounds.
  Walks compose, and a row type at the end of a walk gives a row type at its start
  (`RowSpec.under`).
-/

import DfDerive.Codegen.ShapeWalk
import DfDerive.Spec.Rows

namespace DfDerive

open Lib

@[ext]
structure Walk where
  /-- Rows whose leaves satisfy a predicate. -/
  typed : (Value → Prop) → Value → Prop
  cell : (Value → Cell) → Value → Cell
  leaves : Value → List Value
  /-- Batches whose lists are within the offset range, with leaves satisfying a predicate. -/
  fits : (List Value → Prop) → List Value → Prop
  /-- The list layers passed. -/
  depth : Nat
  typed_leaves : ∀ P v, typed P v → ∀ u ∈ leaves v, P u
  typed_mono : ∀ (P Q : Value → Prop) v, (∀ u, P u → Q u) → typed P v → typed Q v
  cell_congr : ∀ (f g : Value → Cell) v, (∀ u ∈ leaves v, f u = g u) → cell f v = cell g v
  fits_iff : ∀ F vs, fits F vs ↔ fits (fun _ => True) vs ∧ F (vs.flatMap leaves)
  fits_nil : fits (fun _ => True) []
  fits_sublist : ∀ us vs : List Value, us.Sublist vs → fits (fun _ => True) vs → fits (fun _ => True) us

namespace Walk

/-- Past the wrappers of a shape. -/
def word (shape : WrapperShape) : Walk where
  typed P v := HasWord P shape.word v
  cell f v := cellOf f shape.word v
  leaves v := leavesOf shape.word v
  fits F vs := FitsWord i64Max F shape.word vs
  depth := shape.vecDepth
  typed_leaves _ _ h := HasWord.leaves h
  typed_mono _ _ _ hPQ h := HasWord.mono hPQ h
  cell_congr _ _ _ h := cellOf_congr h
  fits_iff _ _ := fitsWord_iff
  fits_nil := FitsWord.nil trivial _
  fits_sublist _ _ hs h := FitsWord.sublist (fun _ _ _ _ => trivial) hs h

/-- To the value `f` reads. -/
def read (f : Value → Option Value) : Walk where
  typed P v := ∃ x, f v = some x ∧ P x
  cell g v := g ((f v).getD .none)
  leaves v := [(f v).getD .none]
  fits F vs := F (vs.map fun v => (f v).getD .none)
  depth := 0
  typed_leaves P v h u hu := by
    obtain ⟨x, hx, hP⟩ := h
    rw [List.mem_singleton.mp hu, hx]
    exact hP
  typed_mono _ _ _ hPQ h := by
    obtain ⟨x, hx, hP⟩ := h
    exact ⟨x, hx, hPQ x hP⟩
  cell_congr _ _ _ h := h _ List.mem_cons_self
  fits_iff F vs := by rw [true_and, List.map_eq_flatMap]
  fits_nil := trivial
  fits_sublist _ _ _ _ := trivial

/-- One walk after another. -/
def comp (a b : Walk) : Walk where
  typed P v := a.typed (b.typed P) v
  cell f v := a.cell (b.cell f) v
  leaves v := (a.leaves v).flatMap b.leaves
  fits F vs := a.fits (b.fits F) vs
  depth := a.depth + b.depth
  typed_leaves P v h u hu := by
    obtain ⟨t, ht, hu⟩ := List.mem_flatMap.mp hu
    exact b.typed_leaves P t (a.typed_leaves _ v h t ht) u hu
  typed_mono P Q v hPQ h := a.typed_mono _ _ v (fun u => b.typed_mono P Q u hPQ) h
  cell_congr f g v h :=
    a.cell_congr _ _ v fun t ht => b.cell_congr f g t fun u hu => h u (List.mem_flatMap.mpr ⟨t, ht, hu⟩)
  fits_iff F vs := by
    rw [a.fits_iff, b.fits_iff, a.fits_iff (F := b.fits fun _ => True), List.flatMap_assoc, and_assoc]
  fits_nil := (a.fits_iff _ []).mpr ⟨a.fits_nil, b.fits_nil⟩
  fits_sublist us vs hs h := by
    rw [a.fits_iff] at h ⊢
    exact ⟨a.fits_sublist us vs hs h.1, b.fits_sublist _ _ (hs.flatMap _) h.2⟩

theorem comp_assoc (a b c : Walk) : (a.comp b).comp c = a.comp (b.comp c) := by
  refine Walk.ext rfl rfl ?_ rfl (Nat.add_assoc _ _ _)
  funext v
  exact List.flatMap_assoc

/-- Past no wrappers. -/
theorem comp_bare (w : Walk) : w.comp (word (.leaf .bare)) = w := by
  refine Walk.ext rfl rfl ?_ rfl rfl
  funext v
  show (w.leaves v).flatMap (fun u => [u]) = w.leaves v
  exact List.flatMap_singleton' _

/-- Reading after reading; nothing is read from an absent value. -/
theorem read_comp_read (f g : Value → Option Value) (hg : (g .none).getD .none = .none) :
    (read f).comp (read g) = read fun v => (f v).bind g := by
  have hval : ∀ v, (g ((f v).getD .none)).getD .none = ((f v).bind g).getD .none := by
    intro v
    cases f v with
    | none => exact hg
    | some x => rfl
  have htyped : ∀ (P : Value → Prop) v, (∃ x, f v = some x ∧ ∃ y, g x = some y ∧ P y) ↔
      ∃ y, (f v).bind g = some y ∧ P y := by
    intro P v
    cases f v <;> simp
  refine Walk.ext ?_ ?_ ?_ ?_ rfl
  · funext P v
    exact propext (htyped P v)
  · funext c v
    exact congrArg c (hval v)
  · funext v
    show [(f v).getD .none].flatMap (fun u => [(g u).getD .none]) = [((f v).bind g).getD .none]
    rw [List.flatMap_singleton, hval]
  · funext F vs
    show F ((vs.map _).map _) = F _
    rw [List.map_map]
    exact congrArg F (List.map_congr_left fun v _ => hval v)

end Walk

theorem wrapListLayers_add (dtype : DataType) (n : Nat) : ∀ m,
    wrapListLayers dtype (m + n) = wrapListLayers (wrapListLayers dtype n) m
  | 0 => by rw [Nat.zero_add]; rfl
  | m + 1 => by rw [Nat.succ_add]; exact congrArg DataType.list (wrapListLayers_add dtype n m)

/-! ## Row types along walks -/

def ColumnSpec.under (w : Walk) (c : ColumnSpec) : ColumnSpec := ⟨c.name, wrapListLayers c.dtype w.depth, w.cell c.cell⟩

namespace RowSpec

/-- The row type whose rows lead to rows of `spec`. -/
def under (w : Walk) (spec : RowSpec) : RowSpec where
  columns := spec.columns.map (ColumnSpec.under w)
  typed := w.typed spec.typed
  valid := spec.valid
  good v := ∀ u ∈ w.leaves v, spec.good u
  fits := w.fits spec.fits
  fits_nil := (w.fits_iff _ []).mpr ⟨w.fits_nil, spec.fits_nil⟩
  fits_sublist us vs hs h := by
    rw [w.fits_iff] at h ⊢
    exact ⟨w.fits_sublist us vs hs h.1, spec.fits_sublist _ _ (hs.flatMap _) h.2⟩

/-- A batch converts along a walk when the walk's lists fit and the rows it leads to convert. -/
theorem accepts_under (w : Walk) (spec : RowSpec) (vs : List Value) :
    (spec.under w).Accepts vs ↔ w.fits spec.Accepts vs := by
  rw [w.fits_iff spec.Accepts]
  simp only [Accepts, under, w.fits_iff spec.fits]
  have hgood : (∀ v ∈ vs, ∀ u ∈ w.leaves v, spec.good u) ↔ ∀ u ∈ vs.flatMap w.leaves, spec.good u := by
    simp only [List.mem_flatMap]
    exact ⟨fun h u ⟨v, hv, hu⟩ => h v hv u hu, fun h v hv u hu => h u ⟨v, hv, hu⟩⟩
  rw [hgood, and_assoc]

theorem under_comp (a b : Walk) (spec : RowSpec) : spec.under (a.comp b) = (spec.under b).under a := by
  have hcols : spec.columns.map (ColumnSpec.under (a.comp b)) =
      (spec.columns.map (ColumnSpec.under b)).map (ColumnSpec.under a) := by
    rw [List.map_map]
    refine List.map_congr_left fun c _ => ?_
    simp only [ColumnSpec.under, Walk.comp, Function.comp_apply, wrapListLayers_add]
  have hgood : (fun v => ∀ u ∈ (a.leaves v).flatMap b.leaves, spec.good u) =
      fun v => ∀ t ∈ a.leaves v, ∀ u ∈ b.leaves t, spec.good u := by
    funext v
    simp only [List.mem_flatMap, eq_iff_iff]
    exact ⟨fun h t ht u hu => h u ⟨t, ht, hu⟩, fun h u ⟨t, ht, hu⟩ => h t ht u hu⟩
  exact RowSpec.ext hcols rfl rfl hgood rfl

/-- The columns of one row type after those of another. -/
def append (a b : RowSpec) : RowSpec where
  columns := a.columns ++ b.columns
  typed v := a.typed v ∧ b.typed v
  valid := a.valid ∧ b.valid
  good v := a.good v ∧ b.good v
  fits vs := a.fits vs ∧ b.fits vs
  fits_nil := ⟨a.fits_nil, b.fits_nil⟩
  fits_sublist us vs hs h := ⟨a.fits_sublist us vs hs h.1, b.fits_sublist us vs hs h.2⟩

/-- The row type without columns. -/
def empty : RowSpec where
  columns := []
  typed _ := True
  valid := True
  good _ := True
  fits _ := True
  fits_nil := trivial
  fits_sublist _ _ _ _ := trivial

def concat (specs : List RowSpec) : RowSpec := specs.foldr append empty

theorem concat_columns (specs : List RowSpec) : (concat specs).columns = specs.flatMap RowSpec.columns := by
  induction specs with
  | nil => rfl
  | cons a specs ih => exact congrArg (a.columns ++ ·) ih

theorem concat_typed (specs : List RowSpec) (v : Value) : (concat specs).typed v ↔ ∀ s ∈ specs, s.typed v := by
  induction specs with
  | nil => exact iff_of_true trivial (by simp)
  | cons a specs ih =>
    rw [List.forall_mem_cons, ← ih]
    rfl

theorem concat_valid (specs : List RowSpec) : (concat specs).valid ↔ ∀ s ∈ specs, s.valid := by
  induction specs with
  | nil => exact iff_of_true trivial (by simp)
  | cons a specs ih =>
    rw [List.forall_mem_cons, ← ih]
    rfl

theorem concat_accepts (specs : List RowSpec) (vs : List Value) :
    (concat specs).Accepts vs ↔ ∀ s ∈ specs, s.Accepts vs := by
  induction specs with
  | nil => exact iff_of_true ⟨trivial, fun _ _ => trivial⟩ (by simp)
  | cons a specs ih =>
    rw [List.forall_mem_cons, ← ih]
    simp only [concat, List.foldr_cons, Accepts, append, forall₂_and]
    tauto

end RowSpec

end DfDerive
