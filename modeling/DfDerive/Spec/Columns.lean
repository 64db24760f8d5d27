/-
  DfDerive.Spec.Columns — the reference of a struct, from its columns.

  A `ColumnRef` is what the reference needs to know of a column: its name, the kind of its
  leaf, and the walk to its leaves. A primitive leaf gives one column, a nested one the
  columns of its type under new names; both are read along the walk (`ColumnRef.row`). The
  rows of a struct have the columns of all of them, under distinct names (`structRow`).
-/

import DfDerive.Codegen.ColumnEmitProofs

namespace DfDerive

open Lib

structure ColumnRef where
  name : String
  policy : NestedNamePolicy
  route : TerminalLeafRoute
  walk : Walk
  /-- An `Option` lies above the leaf, so that a nested leaf is found by its position. -/
  carried : Bool

/-- The row type of a primitive leaf: one column. -/
def primitiveRow (tr : Traits) (leaf : PrimitiveLeaf) (name : String) (cell : Value → Cell) : RowSpec where
  columns := [⟨name, leaf.dtype, cell⟩]
  typed := LeafTyped leaf
  valid := True
  good := Encodes tr leaf
  fits _ := True
  fits_nil := trivial
  fits_sublist _ _ _ _ := trivial

/-- A nested row type under the names of a field. -/
def nestedRow (carried : Bool) (policy : NestedNamePolicy) (name : String) (spec : RowSpec) : RowSpec where
  columns := spec.columns.map fun c => { c with name := composeNestedName policy name c.name }
  typed := spec.typed
  valid := spec.valid
  good := spec.good
  fits vs := PositionsFit carried vs ∧ spec.fits vs
  fits_nil := ⟨.nil carried, spec.fits_nil⟩
  fits_sublist us vs hs h := ⟨h.1.sublist hs, spec.fits_sublist us vs hs h.2⟩

section

variable (tr : Traits) (spec : TypePath → RowSpec)

/-- The row type at the end of a column's walk; below a walk of `depth` list layers. -/
def leafRow (route : TerminalLeafRoute) (carried : Bool) (policy : NestedNamePolicy) (name : String) (depth : Nat) :
    RowSpec :=
  match route with
  | .primitive leaf => primitiveRow tr leaf name (columnCell tr leaf depth)
  | .nested nested => nestedRow carried policy name (spec nested.ty)

def ColumnRef.row (r : ColumnRef) : RowSpec := (leafRow tr spec r.route r.carried r.policy r.name r.walk.depth).under r.walk

/-- The columns of a struct, whose generated names are checked or distinct by construction. -/
def structRow (refs : List ColumnRef) : RowSpec :=
  let rows := RowSpec.concat (refs.map (ColumnRef.row tr spec))
  { rows with valid := rows.valid ∧ (rows.columns.map ColumnSpec.name).Nodup }

end

theorem Walk.fits_congr (w : Walk) {F G : List Value → Prop} {vs : List Value} (h : ∀ us, F us ↔ G us) :
    w.fits F vs ↔ w.fits G vs := by
  rw [w.fits_iff F, w.fits_iff G, h]

theorem primitiveRow_accepts {tr : Traits} {leaf : PrimitiveLeaf} {name : String} {cell : Value → Cell} (us : List Value) :
    (primitiveRow tr leaf name cell).Accepts us ↔ AllEncode tr leaf us :=
  iff_of_eq (true_and _)

theorem nestedRow_accepts {carried : Bool} {policy : NestedNamePolicy} {name : String} {spec : RowSpec} (us : List Value) :
    (nestedRow carried policy name spec).Accepts us ↔ PositionsFit carried us ∧ spec.Accepts us :=
  and_assoc

/-! ## Columns that follow their walks -/

/-- The column is the one the reference means, and its encoder follows the walk. -/
structure ColumnIR.RefersTo (c : ColumnIR) (r : ColumnRef) : Prop where
  name : c.name = r.name
  policy : c.nestedNamePolicy = r.policy
  route : c.leafSpec.route = r.route
  follows : c.Follows r.walk r.carried

/-- The implementations of the nested types of a column follow their references. -/
def ModelsRoute (env : Env) (spec : TypePath → RowSpec) (route : TerminalLeafRoute) : Prop :=
  ∀ nested, route = .nested nested → Models (env.impl nested.ty) (spec nested.ty)

section

variable {env : Env} {spec : TypePath → RowSpec} {c : ColumnIR} {r : ColumnRef} {items : List Operand}

/-- The column's part of a batch gives the reference's columns, exactly when the batch converts. -/
theorem ColumnIR.RefersTo.emits (h : c.RefersTo r) (hm : ModelsRoute env spec r.route) (hrows : RowItems items)
    (ht : ∀ it ∈ items, (r.row env.traits spec).typed it.erase) :
    (buildColumnEmit env c).Emits Fault.FromData items
      ((r.row env.traits spec).valid ∧ (r.row env.traits spec).Accepts (items.map Operand.erase))
      (ColumnsOf (r.row env.traits spec).columns (items.map Operand.erase)) := by
  obtain ⟨name, policy, route, walk, carried⟩ := r
  cases route with
  | primitive leaf =>
    have hrun := h.follows.primitive env leaf items h.route hrows ht
    refine Stages.mono (Stages.congr hrun ?_) fun _ out hout => ?_
    · rw [ColumnRef.row, RowSpec.accepts_under]
      exact (walk.fits_congr fun us => (primitiveRow_accepts us).symm).trans (iff_of_eq (true_and _)).symm
    · obtain ⟨s, rfl, hname, hd, hcells⟩ := hout
      exact .cons ⟨hname.trans h.name, hd, hcells⟩ .nil
  | nested nested =>
    have hmodels := hm nested rfl
    have htyped : ∀ u ∈ (items.map Operand.erase).flatMap walk.leaves, (spec nested.ty).typed u := by
      intro u hu
      obtain ⟨v, hv, hu⟩ := List.mem_flatMap.mp hu
      obtain ⟨it, hit, rfl⟩ := List.mem_map.mp hv
      exact walk.typed_leaves _ _ (ht it hit) u hu
    obtain ⟨used, hused, hrun⟩ := h.follows.nested env nested items h.route hrows ht (hmodels.within htyped)
    have hname : c.name = name := h.name
    have hpolicy : c.nestedNamePolicy = policy := h.policy
    rw [hname, hpolicy] at hrun
    refine Stages.mono (Stages.congr hrun ?_) fun hG out hout => ?_
    · rw [nestedAnswers_iff hmodels htyped hused, ColumnRef.row, RowSpec.accepts_under, walk.fits_iff (PositionsFit carried),
        walk.fits_iff (RowSpec.Accepts _)]
      show _ ↔ (spec nested.ty).valid ∧ _ ∧ (nestedRow carried policy name (spec nested.ty)).Accepts _
      rw [nestedRow_accepts]
      tauto
    · obtain ⟨hvalid, hacc⟩ := hG
      rw [ColumnRef.row, RowSpec.accepts_under, walk.fits_iff] at hacc
      have hcols := hout.columns hmodels htyped hvalid ((nestedRow_accepts _).mp hacc.2).2 hused
      show ColumnsOf (((spec nested.ty).columns.map _).map (ColumnSpec.under walk)) _ _
      rw [ColumnsOf, List.map_map, List.forall₂_map_left_iff]
      exact List.Forall₂.imp (fun _ _ hs => ⟨hs.1, hs.2.1, hs.2.2⟩) hcols

end

end DfDerive
