/-
  DfDerive.Columns.Reread — the columns of a field, read by other ways.

  The columns of a field depend on the way to it in nothing but their walks
  (`FieldIR.refsFrom_eq`), so a field read alike from two batches has columns that agree there
  (`ColumnRef.Alike.agrees`), and two structs whose columns do so have the same schema and
  frames (`Models.agree_all`).
-/

import DfDerive.Derived.Batches
import DfDerive.Spec.Alike
import DfDerive.Spec.Paths

namespace DfDerive

open Lib

/-! ## Columns along other walks -/

/-- The column at the end of `w`. -/
def ColumnRef.after (w : Walk) (r : ColumnRef) : ColumnRef := { r with walk := w.comp r.walk }

/-- The columns of the field when `w` leads to its leaf. -/
def FieldIR.refsFrom (w : Walk) (field : FieldIR) : List ColumnRef :=
  leafRefs w field.wrapperShape.hasLeafOption field.nestedNamePolicy (columnNameForIdent field.name) field.leafSpec

/-- The way to the field is the start of the walks of its columns, and nothing else of them. -/
theorem FieldIR.refsFrom_eq {field : FieldIR} (h : field.Projectable) (w : Walk) :
    field.refsFrom w = (field.refsFrom (.read some)).map (ColumnRef.after w) := by
  obtain ⟨name, fieldIndex, leafSpec, shape, depth, policy⟩ := field
  have hterminal : ∀ route : TerminalLeafRoute,
      [ColumnRef.mk (columnNameForIdent name) policy route w shape.hasLeafOption] =
        [ColumnRef.mk (columnNameForIdent name) policy route (.read some) shape.hasLeafOption].map (ColumnRef.after w) := by
    intro route
    rw [List.map_singleton, ColumnRef.after, Walk.comp_read_some]
  cases leafSpec with
  | tuple elements =>
    have helements := h.elements elements rfl
    show elementsRefs w _ _ 0 elements = (elementsRefs (.read some) _ _ 0 elements).map _
    rw [elementsRefs_eq w _ _ helements, elementsRefs_eq (.read some) _ _ helements, List.map_map]
    refine List.map_congr_left fun l _ => ?_
    show ElementLeaf.ref w _ _ l = ColumnRef.after w (ElementLeaf.ref (.read some) _ _ l)
    rw [ElementLeaf.ref, ElementLeaf.ref, ColumnRef.after, ← Walk.comp_assoc, Walk.comp_read_some]
  | numeric _ | string | bool | dateTime _ | naiveDateTime _ | naiveDate | naiveTime | duration _ _ | decimal _ _ _
  | asString _ | asStr _ | binary | struct _ | generic _ => exact hterminal _

theorem FieldIR.refsFrom_comp {field : FieldIR} (h : field.Projectable) (v w : Walk) :
    field.refsFrom (v.comp w) = (field.refsFrom w).map (ColumnRef.after v) := by
  rw [FieldIR.refsFrom_eq h, FieldIR.refsFrom_eq h w, List.map_map]
  refine List.map_congr_left fun r _ => ?_
  show ColumnRef.after (v.comp w) r = ColumnRef.after v (ColumnRef.after w r)
  rw [ColumnRef.after, ColumnRef.after, ColumnRef.after, Walk.comp_assoc]

/-! ## The same column of other rows -/

/-- Columns that are told apart by their walks alone, which are alike on the batches. -/
structure ColumnRef.Alike (rows rows' : List Value) (q r : ColumnRef) : Prop where
  name : q.name = r.name
  policy : q.policy = r.policy
  route : q.route = r.route
  carried : q.carried = r.carried
  walk : q.walk.Alike r.walk rows rows'

/-- A field read alike has columns that are. -/
theorem FieldIR.refsFrom_alike {field : FieldIR} (h : field.Projectable) {w w' : Walk} {rows rows' : List Value}
    (hw : w.Alike w' rows rows') : List.Forall₂ (ColumnRef.Alike rows rows') (field.refsFrom w) (field.refsFrom w') := by
  rw [FieldIR.refsFrom_eq h w, FieldIR.refsFrom_eq h w', List.forall₂_map_left_iff, List.forall₂_map_right_iff,
    List.forall₂_same]
  exact fun r _ => ⟨rfl, rfl, rfl, rfl, hw.comp r.walk⟩

section

variable {tr : Traits} {spec : TypePath → RowSpec} {rows rows' : List Value}

theorem ColumnRef.Alike.agrees {q r : ColumnRef} (h : q.Alike rows rows' r) (ht : ∀ row ∈ rows, (q.row tr spec).typed row) :
    (q.row tr spec).Agrees (r.row tr spec) rows rows' := by
  obtain ⟨name, policy, route, walk, carried⟩ := q
  obtain ⟨name', policy', route', walk', carried'⟩ := r
  obtain ⟨rfl, rfl, rfl, rfl, hwalk⟩ := h
  have hdepth : leafRow tr spec route carried policy name walk'.depth = leafRow tr spec route carried policy name walk.depth :=
    congrArg (leafRow tr spec route carried policy name) hwalk.depth.symm
  show RowSpec.Agrees ((leafRow tr spec route carried policy name walk.depth).under walk)
    ((leafRow tr spec route carried policy name walk'.depth).under walk') rows rows'
  rw [hdepth]
  exact RowSpec.Agrees.under hwalk _ ht

/-- Columns that are alike, side by side. -/
theorem ColumnRef.Alike.concat {refs refs' : List ColumnRef} (h : List.Forall₂ (ColumnRef.Alike rows rows') refs refs')
    (ht : ∀ r ∈ refs, ∀ row ∈ rows, (r.row tr spec).typed row) :
    (RowSpec.concat (refs.map (ColumnRef.row tr spec))).Agrees (RowSpec.concat (refs'.map (ColumnRef.row tr spec))) rows rows' := by
  refine RowSpec.Agrees.concat ?_
  rw [List.forall₂_map_left_iff, List.forall₂_map_right_iff]
  exact ((List.forall₂_and_left _ _).mpr ⟨ht, h⟩).imp fun _ _ hqr => hqr.2.agrees hqr.1

end

/-! ## The same schema and frames -/

/-- The implementations answer alike, whatever they are asked of the batches. -/
structure Impl.Agree (impl impl' : Impl) (rows rows' : List Value) : Prop where
  schema : Run.Agree (· = ·) impl.schema impl'.schema
  emptyDataframe : Run.Agree DataFrame.Same impl.emptyDataframe impl'.emptyDataframe
  columnarFromRefs : Run.Agree DataFrame.Same (impl.columnarFromRefs rows) (impl'.columnarFromRefs rows')
  columnarToDataframe : Run.Agree DataFrame.Same (impl.columnarToDataframe rows) (impl'.columnarToDataframe rows')
  toDataFrameVec : Run.Agree DataFrame.Same (impl.toDataFrameVec rows) (impl'.toDataFrameVec rows')

theorem Models.agree_all {impl impl' : Impl} {spec spec' : RowSpec} (hm : Models impl spec) (hm' : Models impl' spec')
    {rows rows' : List Value} (h : spec.Agrees spec' rows rows') (hlen : rows.length = rows'.length)
    (ht : ∀ row ∈ rows, spec.typed row) : impl.Agree impl' rows rows' := by
  have hframes := hm.agree hm' h hlen ht
  have hdirect : Run.Agree DataFrame.Same (impl.columnarToDataframe rows) (impl'.columnarToDataframe rows') := by
    rw [hm.direct, hm'.direct]
    exact hframes
  refine ⟨hm.schema.agree hm'.schema h.valid fun a b ha hb => ?_,
    hm.emptyDataframe.agree hm'.emptyDataframe h.valid fun df df' hdf hdf' => ⟨?_, ?_, ?_⟩, hframes, hdirect, ?_⟩
  · rw [ha, hb]
    exact h.entries
  · rw [hdf.fields, hdf'.fields]
    exact h.entries
  · have hlength : spec.columns.length = spec'.columns.length := by
      have hentries := congrArg List.length h.entries
      rwa [RowSpec.entries, RowSpec.entries, List.length_map, List.length_map] at hentries
    rw [DataFrame.cells, DataFrame.cells, hdf.columns.cells, hdf'.columns.cells]
    simp only [List.map_nil, List.map_const', hlength]
  · rw [hdf.height, hdf'.height]
  · rw [hm.toDataFrameVec, hm'.toDataFrameVec]
    exact hdirect

end DfDerive
