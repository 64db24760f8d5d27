/-
  DfDerive.Columns.Kept — what the frame of a batch tells about its rows.

  The columns of a tree are its leaves (`TypeTree.leafColumns`), each at the end of a path from
  the row. `frames_keep`: two batches give the same cells exactly when their rows are, leaf by
  leaf, the same but for pointers and for which of several `Option`s was absent.
-/

import DfDerive.Columns.Alone
import DfDerive.Derived.Batches
import DfDerive.Spec.Kept

namespace DfDerive

open Lib

/-! ## The columns of a tree -/

def DerivedStruct.paths (s : DerivedStruct) : List (List PathStep × TerminalLeafRoute) := s.fields.flatMap FieldIR.paths

theorem DerivedStruct.refs_paths (s : DerivedStruct) : s.refs.map ColumnRef.target = s.paths.map pathTarget := by
  rw [refs, paths, List.map_flatMap, List.map_flatMap]
  exact List.flatMap_congr fun field _ => field.refs_paths

namespace TypeTree

variable (tr : Traits)

/-- The paths to the leaves of a row, down through the nested types, and the cells of the leaves. -/
def leafColumns : TypeTree → List (List PathStep × (Value → Cell))
  | unit => []
  | derived s _ types => s.paths.flatMap fun (path, route) =>
    match route with
    | .primitive leaf => [(path, columnCell tr leaf (pathWalk path).depth)]
    | .nested nested => ((types nested.ty).leafColumns).map fun (rest, cell) => (path ++ rest, cell)

/-- The cells of the columns at the end of a walk. -/
def targetCells (types : TypePath → TypeTree) (target : Walk × TerminalLeafRoute) : List (Value → Cell) :=
  match target.2 with
  | .primitive leaf => [target.1.cell (columnCell tr leaf target.1.depth)]
  | .nested nested => (((types nested.ty).spec tr).columns.map ColumnSpec.cell).map target.1.cell

theorem row_cells (types : TypePath → TypeTree) (r : ColumnRef) :
    (r.row tr fun ty => (types ty).spec tr).columns.map ColumnSpec.cell = targetCells tr types r.target := by
  obtain ⟨name, policy, route, walk, carried⟩ := r
  cases route with
  | primitive leaf => rfl
  | nested nested =>
    simp only [ColumnRef.row, RowSpec.under, leafRow, nestedRow, targetCells, ColumnRef.target, List.map_map]
    rfl

theorem leafColumns_cells : ∀ t : TypeTree,
    (t.spec tr).columns.map ColumnSpec.cell = (t.leafColumns tr).map fun c => (pathWalk c.1).cell c.2
  | unit => rfl
  | derived s typeName types => by
    have htargets : (s.refs.map ColumnRef.target).flatMap (targetCells tr types) =
        (s.paths.map pathTarget).flatMap (targetCells tr types) := by rw [s.refs_paths]
    have hcolumns : ((derived s typeName types).spec tr).columns.map ColumnSpec.cell =
        (s.refs.map ColumnRef.target).flatMap (targetCells tr types) := by
      show (RowSpec.concat _).columns.map ColumnSpec.cell = _
      rw [RowSpec.concat_columns, List.flatMap_map, List.map_flatMap, List.flatMap_map]
      exact List.flatMap_congr fun r _ => row_cells tr types r
    rw [hcolumns, htargets, leafColumns, List.map_flatMap, List.flatMap_map]
    refine List.flatMap_congr fun p _ => ?_
    obtain ⟨path, route⟩ := p
    cases route with
    | primitive leaf => rfl
    | nested nested =>
      simp only [pathTarget, targetCells, leafColumns_cells (types nested.ty), List.map_map]
      refine List.map_congr_left fun c _ => ?_
      simp only [Function.comp_apply, pathWalk_append]
      rfl

theorem leafColumns_typed : ∀ (t : TypeTree) {v : Value}, (t.spec tr).typed v →
    ∀ c ∈ t.leafColumns tr, (pathWalk c.1).typed (fun _ => True) v
  | unit, _, _ => nofun
  | derived s typeName types, v, ht => by
    intro c hc
    rw [leafColumns] at hc
    obtain ⟨⟨path, route⟩, hp, hc⟩ := List.mem_flatMap.mp hc
    -- the path is the walk of a reference column, whose row type the struct's row type contains
    have htarget : pathTarget (path, route) ∈ s.refs.map ColumnRef.target := by
      rw [s.refs_paths]
      exact List.mem_map_of_mem hp
    obtain ⟨⟨name, policy, route', walk, carried⟩, hr, htarget⟩ := List.mem_map.mp htarget
    obtain ⟨rfl, rfl⟩ : walk = pathWalk path ∧ route' = route := Prod.mk.inj htarget
    have hrow : ∀ r ∈ s.refs, (r.row tr fun ty => (types ty).spec tr).typed v := by
      rw [← List.forall_mem_map (f := ColumnRef.row tr fun ty => (types ty).spec tr) (P := fun row => row.typed v),
        ← RowSpec.concat_typed]
      exact ht
    cases route' with
    | primitive leaf =>
      obtain rfl := List.mem_singleton.mp hc
      exact (pathWalk path).typed_mono _ _ _ (fun _ _ => trivial) (hrow _ hr)
    | nested nested =>
      obtain ⟨⟨rest, cell⟩, hchild, rfl⟩ := List.mem_map.mp hc
      show (pathWalk (path ++ rest)).typed _ _
      rw [pathWalk_append]
      exact (pathWalk path).typed_mono _ _ _ (fun u hu => leafColumns_typed (types nested.ty) hu _ hchild) (hrow _ hr)

theorem cells_map (t : TypeTree) (vs : List Value) : ((t.spec tr).columns.map fun c => vs.map c.cell) =
    (t.leafColumns tr).map fun c => vs.map ((pathWalk c.1).cell c.2) := by
  have hmap := congrArg (List.map vs.map) (t.leafColumns_cells tr)
  rw [List.map_map, List.map_map] at hmap
  exact hmap

/-! ## Frames -/

/-- Frames of two batches have the same rows exactly when the batches have, at every leaf of the type. -/
theorem frames_keep (t : TypeTree) {vs vs' : List Value} (ht : ∀ v ∈ vs, (t.spec tr).typed v)
    (ht' : ∀ v ∈ vs', (t.spec tr).typed v) {df df' : DataFrame} (h : (t.impl tr).columnarToDataframe vs = .ok df)
    (h' : (t.impl tr).columnarToDataframe vs' = .ok df') :
    (df.height = df'.height ∧ df.cells = df'.cells) ↔ vs.length = vs'.length ∧ ∀ c ∈ t.leafColumns tr,
      List.Forall₂ (PathIndistinct (fun u u' => c.2 u = c.2 u') (fun u => c.2 u = .null) c.1) vs vs' := by
  have hframe := (t.models tr).frame ht h
  have hframe' := (t.models tr).frame ht' h'
  rw [hframe.height, hframe'.height, hframe.cells, hframe'.cells, cells_map tr t, cells_map tr t, List.map_inj_left]
  refine and_congr_right fun _ => forall₂_congr fun c hc => ?_
  rw [map_eq_map_iff]
  exact forall₂_congr_mem fun v hv v' hv' => pathWalk_eq_iff (P := fun _ => True) (fun _ _ _ _ => Iff.rfl)
    (fun _ _ => Iff.rfl) (leafColumns_typed tr t (ht v hv) c hc) (leafColumns_typed tr t (ht' v' hv') c hc)

/-- `struct Reading { level: Option<Option<i64>> }` -/
def readingTree : TypeTree :=
  .derived
    { input := ⟨"Reading", .named [("level", ⟨.mk [.option, .option] (.leaf (.numeric .i64)), .include .default⟩)]⟩
      identifiers := ⟨List.nodup_singleton _, by decide⟩
      fields := [⟨"level", none, .numeric .i64, normalizeWrappers [.option, .option], 0, .field⟩]
      lowered := rfl }
    "Reading" fun _ => .unit

def readingRow (level : Value) : Value := .struct [("level", level)]

/-- `None` and `Some(None)` give one frame. -/
theorem frames_keep_reading : [readingRow .none].length = [readingRow (.some .none)].length ∧
    ∀ c ∈ readingTree.leafColumns brokenTraits,
      List.Forall₂ (PathIndistinct (fun u u' => c.2 u = c.2 u') (fun u => c.2 u = .null) c.1)
        [readingRow .none] [readingRow (.some .none)] := by
  have ht : ∀ v ∈ [readingRow .none], (readingTree.spec brokenTraits).typed v := fun v hv =>
    List.mem_singleton.mp hv ▸ ⟨⟨.none, rfl, trivial⟩, trivial⟩
  have ht' : ∀ v ∈ [readingRow (.some .none)], (readingTree.spec brokenTraits).typed v := fun v hv =>
    List.mem_singleton.mp hv ▸ ⟨⟨.some .none, rfl, trivial⟩, trivial⟩
  obtain ⟨df, hdf, hrows⟩ := Run.ok_of_map (r := (readingTree.impl brokenTraits).columnarToDataframe [readingRow .none])
    (f := fun df => (df.height, df.cells)) (b := (1, [[.null]])) rfl
  obtain ⟨df', hdf', hrows'⟩ := Run.ok_of_map
    (r := (readingTree.impl brokenTraits).columnarToDataframe [readingRow (.some .none)])
    (f := fun df => (df.height, df.cells)) (b := (1, [[.null]])) rfl
  have hsame : df.height = df'.height ∧ df.cells = df'.cells := Prod.mk.inj (hrows.trans hrows'.symm)
  exact (frames_keep brokenTraits readingTree ht ht' hdf hdf').mp hsame

end TypeTree

end DfDerive
