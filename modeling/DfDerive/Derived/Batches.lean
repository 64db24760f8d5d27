/-
  DfDerive.Derived.Batches — batches, schemas and errors of derived rows.

  Over any tree of derived structs:
  - `TypeTree.batch_homomorphism`: a batch is the row-wise concatenation of its parts, and
    the entry points agree; below the size limits a batch fails exactly when a row does.
  - `TypeTree.schema_agreement`: schema, empty frame and batch have the same columns, and a
    batch has a row for every item.
  - `TypeTree.errors_from_data`: no run-time check of the generated code ever fails.
-/

import DfDerive.Derived.Tree

namespace DfDerive

open Lib

/-! ## Frames, row by row -/

/-- `whole` has the rows of `second` after those of `first`. -/
structure DataFrame.Stacked (first second whole : DataFrame) : Prop where
  first_fields : first.fields = whole.fields
  second_fields : second.fields = whole.fields
  cells : whole.cells = List.zipWith (· ++ ·) first.cells second.cells
  height : whole.height = first.height + second.height

/-- The call returns an `Err`. -/
def Run.Fails {α : Type} (r : Run α) : Prop := ∃ e, r = .error (.err e)

theorem FrameOf.cells {cs : List ColumnSpec} {vs : List Value} {df : DataFrame} (h : FrameOf cs vs df) :
    df.cells = cs.map fun c => vs.map c.cell :=
  h.columns.cells

/-- Frames of the same columns stack as their rows do. -/
theorem FrameOf.stacked {cs : List ColumnSpec} {us vs : List Value} {a b c : DataFrame} (ha : FrameOf cs us a)
    (hb : FrameOf cs vs b) (hc : FrameOf cs (us ++ vs) c) : DataFrame.Stacked a b c where
  first_fields := ha.fields.trans hc.fields.symm
  second_fields := hb.fields.trans hc.fields.symm
  cells := by
    rw [ha.cells, hb.cells, hc.cells, List.zipWith_map, List.zipWith_self]
    exact List.map_congr_left fun c _ => List.map_append
  height := by rw [ha.height, hb.height, hc.height, List.length_append]

section

variable {impl : Impl} {spec : RowSpec}

/-- A run that converts a batch gives the batch's columns. -/
theorem Models.frame (h : Models impl spec) {vs : List Value} (ht : ∀ v ∈ vs, spec.typed v) {df : DataFrame}
    (hdf : impl.columnarToDataframe vs = .ok df) : FrameOf spec.columns vs df := by
  rw [h.direct] at hdf
  exact ((h.fromRefs vs ht).of_eq_ok hdf).2

theorem Models.empty (h : Models impl spec) {df : DataFrame} (hdf : impl.emptyDataframe = .ok df) :
    FrameOf spec.columns [] df :=
  (h.emptyDataframe.of_eq_ok hdf).2

theorem Models.entries (h : Models impl spec) {entries : List (String × DataType)} (hs : impl.schema = .ok entries) :
    entries = spec.entries :=
  (h.schema.of_eq_ok hs).2

/-- A run that does not succeed fails with an `Err`. -/
theorem Run.Spec.fails {α : Type} {r : Run α} {G : Prop} {P : α → Prop} (h : Run.Spec r G P) : r.Fails ↔ ¬ G := by
  constructor
  · rintro ⟨e, rfl⟩ hG
    obtain ⟨a, ha, -⟩ := h.1 hG
    cases ha
  · intro hG
    obtain ⟨f, rfl, hf⟩ := h.2 hG
    cases f with
    | err e => exact ⟨e, rfl⟩
    | panic _ => exact hf.elim
    | undefinedBehaviour => exact hf.elim
    | outOfBounds => exact hf.elim
    | illTyped => exact hf.elim

theorem Models.fails (h : Models impl spec) {vs : List Value} (ht : ∀ v ∈ vs, spec.typed v) :
    (impl.columnarToDataframe vs).Fails ↔ ¬ (spec.valid ∧ spec.Accepts vs) := by
  rw [h.direct]
  exact (h.fromRefs vs ht).fails

/-- Below the size limits, a batch fails when one of its rows does. -/
theorem Models.fails_iff_row (h : Models impl spec) {vs : List Value} (ht : ∀ v ∈ vs, spec.typed v) (hfits : spec.fits vs)
    (hne : vs ≠ []) : (impl.columnarToDataframe vs).Fails ↔ ∃ v ∈ vs, (impl.columnarToDataframe [v]).Fails := by
  have hrow : ∀ v ∈ vs, ((impl.columnarToDataframe [v]).Fails ↔ ¬ (spec.valid ∧ spec.good v)) := by
    intro v hv
    have hone : spec.fits [v] := spec.fits_sublist _ _ (List.singleton_sublist.mpr hv) hfits
    rw [h.fails fun u hu => List.mem_singleton.mp hu ▸ ht v hv, RowSpec.Accepts, and_iff_right hone, List.forall_mem_singleton]
  rw [h.fails ht, RowSpec.Accepts, and_iff_right hfits]
  constructor
  · intro hbad
    by_cases hvalid : spec.valid
    · have hsome : ∃ v ∈ vs, ¬ spec.good v := by
        by_contra hnone
        exact hbad ⟨hvalid, fun v hv => by_contra fun hv' => hnone ⟨v, hv, hv'⟩⟩
      obtain ⟨v, hv, hgood⟩ := hsome
      exact ⟨v, hv, (hrow v hv).mpr fun hall => hgood hall.2⟩
    · obtain ⟨v, hv⟩ := List.exists_mem_of_ne_nil vs hne
      exact ⟨v, hv, (hrow v hv).mpr fun hall => hvalid hall.1⟩
  · rintro ⟨v, hv, hfails⟩ ⟨hvalid, hgood⟩
    exact (hrow v hv).mp hfails ⟨hvalid, hgood v hv⟩

theorem Models.toDataFrameVec (h : Models impl spec) (vs : List Value) :
    impl.toDataFrameVec vs = impl.columnarToDataframe vs := by
  cases vs with
  | nil => exact (h.nil.symm.trans (h.direct []).symm)
  | cons v vs => rfl

end

/-! ## Trees -/

namespace TypeTree

variable (tr : Traits) (t : TypeTree)

/-- Batch conversion goes row by row. -/
theorem batch_homomorphism (xs ys : List Value) (hx : ∀ v ∈ xs, (t.spec tr).typed v) (hy : ∀ v ∈ ys, (t.spec tr).typed v) :
    (∀ dx dy dxy, (t.impl tr).columnarToDataframe xs = .ok dx → (t.impl tr).columnarToDataframe ys = .ok dy →
      (t.impl tr).columnarToDataframe (xs ++ ys) = .ok dxy → DataFrame.Stacked dx dy dxy) ∧
    (t.impl tr).columnarToDataframe [] = (t.impl tr).emptyDataframe ∧
    (∀ d e, (t.impl tr).columnarToDataframe xs = .ok d → (t.impl tr).emptyDataframe = .ok e →
      DataFrame.Stacked d e d ∧ DataFrame.Stacked e d d) ∧
    (∀ x, (t.impl tr).toDataframe x = (t.impl tr).columnarToDataframe [x]) ∧
    (t.impl tr).columnarFromRefs xs = (t.impl tr).columnarToDataframe xs ∧
    (t.impl tr).toDataFrameVec xs = (t.impl tr).columnarToDataframe xs ∧
    ((t.spec tr).fits xs → xs ≠ [] →
      (((t.impl tr).columnarToDataframe xs).Fails ↔ ∃ x ∈ xs, ((t.impl tr).columnarToDataframe [x]).Fails)) := by
  have hm := t.models tr
  have hxy : ∀ v ∈ xs ++ ys, (t.spec tr).typed v := fun v hv => (List.mem_append.mp hv).elim (hx v) (hy v)
  refine ⟨fun dx dy dxy hdx hdy hdxy => (hm.frame hx hdx).stacked (hm.frame hy hdy) (hm.frame hxy hdxy),
    (hm.direct []).trans hm.nil, fun d e hd he => ?_, fun x => (hm.toDataframe x).trans (hm.direct [x]).symm,
    (hm.direct xs).symm, hm.toDataFrameVec xs, fun hfits hne => hm.fails_iff_row hx hfits hne⟩
  have hframe := hm.frame hx hd
  refine ⟨hframe.stacked (hm.empty he) ?_, (hm.empty he).stacked hframe hframe⟩
  rw [List.append_nil]
  exact hframe

theorem batch_homomorphism_track :
    ∃ dx dxx, (trackTree.impl brokenTraits).columnarToDataframe [trackRow] = .ok dx ∧
      (trackTree.impl brokenTraits).columnarToDataframe [trackRow, trackRow] = .ok dxx ∧ DataFrame.Stacked dx dx dxx := by
  have ht : ∀ v ∈ [trackRow], (trackTree.spec brokenTraits).typed v := fun v hv =>
    List.mem_singleton.mp hv ▸ trackRow_typed brokenTraits
  obtain ⟨dx, hdx, -⟩ := Run.ok_of_map (r := (trackTree.impl brokenTraits).columnarToDataframe [trackRow])
    (f := DataFrame.height) (b := 1) rfl
  obtain ⟨dxx, hdxx, -⟩ := Run.ok_of_map (r := (trackTree.impl brokenTraits).columnarToDataframe [trackRow, trackRow])
    (f := DataFrame.height) (b := 2) rfl
  exact ⟨dx, dxx, hdx, hdxx, (batch_homomorphism brokenTraits trackTree [trackRow] [trackRow] ht ht).1 dx dx dxx hdx hdx hdxx⟩

/-- The three generators of columns agree. -/
theorem schema_agreement (vs : List Value) (ht : ∀ v ∈ vs, (t.spec tr).typed v) {entries : List (String × DataType)}
    {e df : DataFrame} (hs : (t.impl tr).schema = .ok entries) (he : (t.impl tr).emptyDataframe = .ok e)
    (hdf : (t.impl tr).columnarToDataframe vs = .ok df) :
    e.fields = entries ∧ df.fields = entries ∧ e.height = 0 ∧ df.height = vs.length := by
  have hm := t.models tr
  have hempty := hm.empty he
  have hframe := hm.frame ht hdf
  have hentries : entries = (t.spec tr).columns.map ColumnSpec.entry := hm.entries hs
  exact ⟨hempty.fields.trans hentries.symm, hframe.fields.trans hentries.symm, hempty.height, hframe.height⟩

theorem schema_agreement_track :
    ∃ e df, (trackTree.impl brokenTraits).emptyDataframe = .ok e ∧
      (trackTree.impl brokenTraits).columnarToDataframe [trackRow] = .ok df ∧
        e.fields = [("points.x", .list .int64), ("mark.field_0", .boolean), ("mark.field_1.x", .int64)] ∧
          df.fields = [("points.x", .list .int64), ("mark.field_0", .boolean), ("mark.field_1.x", .int64)] ∧ df.height = 1 := by
  have ht : ∀ v ∈ [trackRow], (trackTree.spec brokenTraits).typed v := fun v hv =>
    List.mem_singleton.mp hv ▸ trackRow_typed brokenTraits
  obtain ⟨e, he, -⟩ := Run.ok_of_map (r := (trackTree.impl brokenTraits).emptyDataframe) (f := DataFrame.height) (b := 0) rfl
  obtain ⟨df, hdf, -⟩ := Run.ok_of_map (r := (trackTree.impl brokenTraits).columnarToDataframe [trackRow])
    (f := DataFrame.height) (b := 1) rfl
  obtain ⟨hempty, hfields, -, hheight⟩ := schema_agreement brokenTraits trackTree [trackRow] ht rfl he hdf
  exact ⟨e, df, he, hdf, hempty, hfields, hheight⟩

/-- A conversion fails because of the data, its size or duplicate names, never by one of
    the checks on nested frames and list arrays. -/
theorem errors_from_data (vs : List Value) (ht : ∀ v ∈ vs, (t.spec tr).typed v) {f : Fault}
    (h : (t.impl tr).schema = .error f ∨ (t.impl tr).emptyDataframe = .error f ∨
      (t.impl tr).columnarToDataframe vs = .error f ∨ (t.impl tr).columnarFromRefs vs = .error f ∨
      (t.impl tr).toDataFrameVec vs = .error f ∨ ∃ v ∈ vs, (t.impl tr).toDataframe v = .error f) : f.FromData := by
  have hm := t.models tr
  have hrefs : ∀ us, (∀ u ∈ us, (t.spec tr).typed u) → (t.impl tr).columnarFromRefs us = .error f → f.FromData :=
    fun us hus => (hm.fromRefs us hus).of_eq_error
  rcases h with h | h | h | h | h | ⟨v, hv, h⟩
  · exact hm.schema.of_eq_error h
  · exact hm.emptyDataframe.of_eq_error h
  · exact hrefs vs ht ((hm.direct vs).symm.trans h)
  · exact hrefs vs ht h
  · exact hrefs vs ht ((hm.direct vs).symm.trans ((hm.toDataFrameVec vs).symm.trans h))
  · exact hrefs [v] (fun u hu => List.mem_singleton.mp hu ▸ ht v hv) ((hm.toDataframe v).symm.trans h)

/-- `struct Note { #[df_derive(as_string)] text: Text }` -/
def noteTree : TypeTree :=
  .derived
    { input := ⟨"Note", .named [("text", ⟨.mk [] (.leaf (.struct "Text")), .include (.leafOverride .asString)⟩)]⟩
      identifiers := ⟨List.nodup_singleton _, by decide⟩
      fields := [⟨"text", none, .asString (.struct "Text"), .leaf .bare, 0, .field⟩]
      lowered := rfl }
    "Note" fun _ => .unit

def noteRow : Value := .struct [("text", .scalar (.foreign 0))]

theorem errors_from_data_note : ∃ f, (noteTree.impl brokenTraits).columnarToDataframe [noteRow] = .error f ∧
    f.FromData := by
  have ht : ∀ v ∈ [noteRow], (noteTree.spec brokenTraits).typed v := fun v hv =>
    List.mem_singleton.mp hv ▸ ⟨⟨.scalar (.foreign 0), rfl, trivial⟩, trivial⟩
  have herr : (noteTree.impl brokenTraits).columnarToDataframe [noteRow] = .error (.err (.compute .displayFailed)) := rfl
  exact ⟨_, herr, errors_from_data brokenTraits noteTree [noteRow] ht (Or.inr (Or.inr (Or.inl herr)))⟩

end TypeTree

end DfDerive
