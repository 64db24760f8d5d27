/-
  DfDerive.Spec.Rows — what the columns of a row type are.

  A `ColumnSpec` gives a column by its name, its dtype and the cell of every row; a frame
  is the reference's for some rows when its series are the columns' (`FrameOf`). A
  `RowSpec` is the reference for a row type: its columns, the values that are its rows,
  and when a batch converts. The conditions on a batch are kept apart: the data of every
  row (`good`), and the size of the batch (`fits`), which any part of a batch meets when
  the batch does. `Models` says that an implementation is the one of a reference.
-/

import DfDerive.Core.Dataframe
import DfDerive.Spec.Cells
import Mathlib.Data.List.Forall2

namespace DfDerive

open Lib

/-! ## Columns -/

structure ColumnSpec where
  name : String
  dtype : DataType
  cell : Value → Cell

/-- `s` is the column `c` of the rows `vs`. -/
structure ColumnSpec.Holds (c : ColumnSpec) (vs : List Value) (s : Series) : Prop where
  name : s.name = c.name
  dtype : s.dtype = c.dtype
  cells : s.cells = vs.map c.cell

def ColumnSpec.entry (c : ColumnSpec) : String × DataType := (c.name, c.dtype)

/-- The series are the columns `cs` of the rows `vs`. -/
abbrev ColumnsOf (cs : List ColumnSpec) (vs : List Value) (ss : List Series) : Prop :=
  List.Forall₂ (fun c s => c.Holds vs s) cs ss

structure FrameOf (cs : List ColumnSpec) (vs : List Value) (df : DataFrame) : Prop where
  columns : ColumnsOf cs vs df.columns
  height : df.height = vs.length

theorem ColumnSpec.Holds.len {c : ColumnSpec} {vs : List Value} {s : Series} (h : c.Holds vs s) : s.len = vs.length := by
  rw [Series.len, h.cells, List.length_map]

theorem ColumnsOf.names {cs : List ColumnSpec} {vs : List Value} {ss : List Series} (h : ColumnsOf cs vs ss) :
    ss.map Series.name = cs.map ColumnSpec.name := by
  induction h with
  | nil => rfl
  | cons hc _ ih => rw [List.map_cons, List.map_cons, hc.name, ih]

theorem ColumnsOf.fields {cs : List ColumnSpec} {vs : List Value} {ss : List Series} (h : ColumnsOf cs vs ss) :
    ss.map (fun s => (s.name, s.dtype)) = cs.map ColumnSpec.entry := by
  induction h with
  | nil => rfl
  | cons hc _ ih =>
    rw [List.map_cons, List.map_cons, ih, hc.name, hc.dtype]
    rfl

theorem ColumnsOf.cells {cs : List ColumnSpec} {vs : List Value} {ss : List Series} (h : ColumnsOf cs vs ss) :
    ss.map Series.cells = cs.map fun c => vs.map c.cell := by
  induction h with
  | nil => rfl
  | cons hc _ ih => rw [List.map_cons, List.map_cons, ih, hc.cells]

theorem ColumnsOf.len {cs : List ColumnSpec} {vs : List Value} {ss : List Series} (h : ColumnsOf cs vs ss) :
    ∀ s ∈ ss, s.len = vs.length := by
  induction h with
  | nil => simp
  | cons hc _ ih =>
    intro s hs
    rcases List.mem_cons.mp hs with rfl | hs
    · exact hc.len
    · exact ih s hs

theorem FrameOf.fields {cs : List ColumnSpec} {vs : List Value} {df : DataFrame} (h : FrameOf cs vs df) :
    df.fields = cs.map ColumnSpec.entry :=
  h.columns.fields

/-- Looking a column up by its name gives that column. -/
theorem FrameOf.column {cs : List ColumnSpec} {vs : List Value} {df : DataFrame} (h : FrameOf cs vs df) {c : ColumnSpec}
    (hc : c ∈ cs) : ∃ s, df.column c.name = .ok s ∧ c.Holds vs s := by
  have hnames := df.names
  have hcols := h.columns
  clear h
  unfold DataFrame.column
  generalize df.columns = ss at hcols hnames
  induction hcols with
  | nil => cases hc
  | @cons d s ds ss hd hds ih =>
    rw [List.map_cons, List.nodup_cons] at hnames
    rcases List.mem_cons.mp hc with rfl | hc
    · refine ⟨s, ?_, hd⟩
      rw [List.find?_cons_of_pos (by simp [hd.name])]
    · obtain ⟨t, ht, hct⟩ := ih hc hnames.2
      refine ⟨t, ?_, hct⟩
      have hne : s.name ≠ c.name := by
        intro heq
        have hmem : c.name ∈ ss.map Series.name := by
          rw [ColumnsOf.names hds]
          exact List.mem_map.mpr ⟨c, hc, rfl⟩
        exact hnames.1 (heq ▸ hmem)
      rw [List.find?_cons_of_neg (by simpa using hne)]
      exact ht

/-! ## Row types -/

/-- The reference for a row type. -/
@[ext]
structure RowSpec where
  columns : List ColumnSpec
  /-- The values that are rows of the type. -/
  typed : Value → Prop
  /-- No generated name is rejected, here or in a nested type. -/
  valid : Prop
  /-- The data of a row converts. -/
  good : Value → Prop
  /-- The batch is within the index and offset ranges. -/
  fits : List Value → Prop
  fits_nil : fits []
  fits_sublist : ∀ us vs, us.Sublist vs → fits vs → fits us

namespace RowSpec

def entries (spec : RowSpec) : List (String × DataType) := spec.columns.map ColumnSpec.entry

/-- A batch converts. -/
def Accepts (spec : RowSpec) (vs : List Value) : Prop := spec.fits vs ∧ ∀ v ∈ vs, spec.good v

theorem accepts_nil (spec : RowSpec) : spec.Accepts [] := ⟨spec.fits_nil, by simp⟩

theorem Accepts.sublist {spec : RowSpec} {us vs : List Value} (hs : us.Sublist vs) (h : spec.Accepts vs) :
    spec.Accepts us :=
  ⟨spec.fits_sublist us vs hs h.1, fun v hv => h.2 v (hs.subset hv)⟩

end RowSpec

/-- The implementation is the one of the reference. -/
structure Models (impl : Impl) (spec : RowSpec) : Prop where
  schema : Run.Spec impl.schema spec.valid (· = spec.entries)
  emptyDataframe : Run.Spec impl.emptyDataframe spec.valid (FrameOf spec.columns [])
  fromRefs : ∀ vs, (∀ v ∈ vs, spec.typed v) →
    Run.Spec (impl.columnarFromRefs vs) (spec.valid ∧ spec.Accepts vs) (FrameOf spec.columns vs)
  toDataframe : ∀ v, impl.toDataframe v = impl.columnarFromRefs [v]
  direct : ∀ vs, impl.columnarToDataframe vs = impl.columnarFromRefs vs
  nil : impl.columnarFromRefs [] = impl.emptyDataframe

end DfDerive
