/-
  DfDerive.Codegen.ColumnarProofs — the generated impls (see `DfDerive.Codegen.Columnar`).

  A struct whose columns follow their walks is the reference's: schema, empty frame and
  batch list the reference's columns, and each of them fails exactly when the reference says
  so (`generateImpl_models`). The columns share one loop over the rows, so each is judged by
  the `Stages` it adds to that loop.
-/

import DfDerive.Codegen.BorrowedItems
import DfDerive.Spec.Columns

namespace DfDerive

open Lib

/-! ## Unique names -/

theorem validateUniqueColumnNames_runs (typeName : String) : ∀ (seen names : List String),
    Run.Spec (validateUniqueColumnNames typeName seen names) (names.Nodup ∧ ∀ n ∈ names, n ∉ seen) (fun _ => True)
  | seen, [] => Runs.pure (by simp) trivial
  | seen, name :: names => by
    rw [validateUniqueColumnNames]
    split
    · rename_i hmem
      exact Runs.throw (fun h => h.2 name List.mem_cons_self hmem) trivial
    · rename_i hnew
      refine Runs.congr (validateUniqueColumnNames_runs typeName (name :: seen) names) ⟨fun h => ⟨?_, ?_⟩, fun h => ⟨?_, ?_⟩⟩
      · exact List.nodup_cons.mpr ⟨fun hmem => h.2 name hmem List.mem_cons_self, h.1⟩
      · exact List.forall_mem_cons.mpr ⟨hnew, fun n hn hs => h.2 n hn (List.mem_cons_of_mem _ hs)⟩
      · exact (List.nodup_cons.mp h.1).2
      · intro n hn hs
        rcases List.mem_cons.mp hs with rfl | hs
        · exact (List.nodup_cons.mp h.1).1 hn
        · exact h.2 n (List.mem_cons_of_mem _ hn) hs

/-- Names that are not validated are distinct already. -/
theorem uniqueNameValidation_runs {ir : StructIR} {typeName : String} {names : List String}
    (h : needsUniqueNameValidation ir = false → names.Nodup) :
    Run.Spec (uniqueNameValidation ir typeName names) names.Nodup (fun _ => True) := by
  unfold uniqueNameValidation
  split
  · refine Runs.congr (validateUniqueColumnNames_runs typeName [] names) ?_
    simp
  · rename_i hneeds
    exact Runs.pure (h (by simpa using hneeds)) trivial

/-! ## The shared loop -/

section

variable {E : Fault → Prop} {ρ : Type} {G : ρ → Prop} {P : ρ → List Series → Prop} {items : List Operand}

/-- The columns of a struct run side by side as they would alone. -/
theorem columnarParts_stages {emits : List ColumnEmit} {refs : List ρ}
    (h : List.Forall₂ (fun emit r => emit.Emits E items (G r) (P r)) emits refs) :
    Stages E (emits.map (·.decls items.length)) (pushRowWise emits) (runBuilders items emits) items (∀ r ∈ refs, G r)
      (fun out => ∃ outs, out = outs.flatten ∧ List.Forall₂ P refs outs) := by
  induction h with
  | nil =>
    exact ⟨fun _ ss => ss = [], fun _ => True, True, by simp, rfl, fun _ _ _ _ _ _ => Runs.pure trivial rfl,
      fun _ _ => Runs.pure trivial ⟨[], rfl, .nil⟩⟩
  | @cons emit r emits refs hhead _ ih =>
    obtain ⟨I, row, final, hrow, h0, hstep, hfinal⟩ := hhead
    obtain ⟨J, rows, finals, hrows, j0, jstep, jfinal⟩ := ih
    refine ⟨fun done ss => ∃ s ts, ss = s :: ts ∧ I done s ∧ J done ts, fun it => row it ∧ rows it, final ∧ finals, ?_,
      ⟨_, _, rfl, h0, j0⟩, ?_, ?_⟩
    · rw [List.forall_mem_cons, ← hrow, ← hrows, forall₂_and]
      tauto
    · rintro done it rest ss hl ⟨s, ts, rfl, hs, hts⟩
      refine Runs.bind (hstep done it rest s hl hs) fun _ s' hs' => ?_
      refine Runs.congr (Runs.bind (jstep done it rest ts hl hts) fun _ ts' hts' => ?_) (iff_of_eq (and_true _))
      exact Runs.pure trivial ⟨s', ts', rfl, hs', hts'⟩
    · rintro ss ⟨s, ts, rfl, hs, hts⟩
      refine Runs.bind (hfinal s hs) fun _ out hout => ?_
      refine Runs.congr (Runs.bind (jfinal ts hts) fun _ out' hout' => ?_) (iff_of_eq (and_true _))
      obtain ⟨outs, rfl, houts⟩ := hout'
      exact Runs.pure trivial ⟨out :: outs, rfl, .cons hout houts⟩

theorem columnarParts_runs {emits : List ColumnEmit} {refs : List ρ}
    (h : List.Forall₂ (fun emit r => emit.Emits E items (G r) (P r)) emits refs) :
    Runs E (columnarParts emits items) (∀ r ∈ refs, G r)
      (fun out => ∃ outs, out = outs.flatten ∧ List.Forall₂ P refs outs) :=
  (columnarParts_stages h).runs

end

/-! ## Frames -/

theorem ColumnsOf.flatten {refs : List RowSpec} {vs : List Value} {outs : List (List Series)}
    (h : List.Forall₂ (fun r out => ColumnsOf r.columns vs out) refs outs) :
    ColumnsOf (RowSpec.concat refs).columns vs outs.flatten := by
  induction h with
  | nil => exact .nil
  | cons hr _ ih => exact List.rel_append hr ih

/-- The columns of a batch under distinct names make a frame; without columns there is
    nothing to take the height from. -/
theorem ColumnsOf.frame {cs : List ColumnSpec} {vs : List Value} {ss : List Series} (h : ColumnsOf cs vs ss)
    (hn : (cs.map ColumnSpec.name).Nodup) (hne : ss = [] → vs = []) :
    ∃ df, DataFrame.newInferHeight ss = .ok df ∧ FrameOf cs vs df := by
  have hheight : DataFrame.inferHeight ss = vs.length := by
    cases ss with
    | nil => rw [hne rfl]; rfl
    | cons s ss => exact h.len s List.mem_cons_self
  have hlens : ∀ s ∈ ss, s.len = DataFrame.inferHeight ss := by
    rw [hheight]
    exact h.len
  have hnames : (ss.map Series.name).Nodup := by
    rw [h.names]
    exact hn
  exact ⟨⟨ss, _, hlens, hnames⟩, by rw [DataFrame.newInferHeight, dif_pos hlens, dif_pos hnames], h, hheight⟩

/-! ## Schema and empty frame -/

section

variable {env : Env} {spec : TypePath → RowSpec}

theorem buildSchemaEntries_runs {c : ColumnIR} {r : ColumnRef} (h : c.RefersTo r) (hm : ModelsRoute env spec r.route) :
    Run.Spec (buildSchemaEntries env c) (r.row env.traits spec).valid (· = (r.row env.traits spec).entries) := by
  obtain ⟨name, policy, route, walk, carried⟩ := r
  have hname : c.name = name := h.name
  have hpolicy : c.nestedNamePolicy = policy := h.policy
  have hroute : c.leafSpec.route = route := h.route
  unfold buildSchemaEntries
  rw [hroute, hname, hpolicy, h.follows.depth]
  cases route with
  | primitive leaf => exact Runs.pure trivial rfl
  | nested nested =>
    refine Runs.congr (Runs.bind (hm nested rfl).schema fun _ entries hentries => Runs.pure trivial ?_)
      (iff_of_eq (and_true _))
    subst hentries
    show ((spec nested.ty).columns.map ColumnSpec.entry).map _ =
      (((spec nested.ty).columns.map _).map (ColumnSpec.under walk)).map ColumnSpec.entry
    rw [List.map_map, List.map_map, List.map_map]
    rfl

theorem buildEmptySeries_runs {c : ColumnIR} {r : ColumnRef} (h : c.RefersTo r) (hm : ModelsRoute env spec r.route) :
    Run.Spec (buildEmptySeries env c) (r.row env.traits spec).valid (ColumnsOf (r.row env.traits spec).columns []) := by
  obtain ⟨name, policy, route, walk, carried⟩ := r
  have hname : c.name = name := h.name
  have hpolicy : c.nestedNamePolicy = policy := h.policy
  have hroute : c.leafSpec.route = route := h.route
  unfold buildEmptySeries
  rw [hroute, hname, hpolicy, h.follows.depth]
  cases route with
  | primitive leaf => exact Runs.pure trivial (.cons ⟨rfl, rfl, rfl⟩ .nil)
  | nested nested =>
    refine Runs.congr (Runs.bind (hm nested rfl).schema fun _ entries hentries => Runs.pure trivial ?_)
      (iff_of_eq (and_true _))
    subst hentries
    show ColumnsOf (((spec nested.ty).columns.map _).map (ColumnSpec.under walk)) [] _
    rw [ColumnsOf, List.map_map, List.forall₂_map_left_iff, RowSpec.entries, List.map_map, List.forall₂_map_right_iff]
    exact List.forall₂_same.mpr fun c _ => ⟨rfl, rfl, rfl⟩

variable {ir : StructIR} {refs : List ColumnRef} {typeName : String}

/-- What holds of every reference, along with what relates it to its column. -/
theorem forall₂_and_right {α β : Type} {R : α → β → Prop} {Q : β → Prop} {l : List α} {rs : List β}
    (h : List.Forall₂ R l rs) (hQ : ∀ r ∈ rs, Q r) : List.Forall₂ (fun a r => Q r ∧ R a r) l rs :=
  ((List.forall₂_and_left _ _).mpr ⟨hQ, h.flip⟩).flip

/-- The columns of the struct are the reference's, and the names that are not validated are
    distinct by construction. -/
structure StructIR.RefersTo (ir : StructIR) (env : Env) (spec : TypePath → RowSpec) (refs : List ColumnRef) : Prop where
  columns : List.Forall₂ ColumnIR.RefersTo ir.columns refs
  models : ∀ r ∈ refs, ModelsRoute env spec r.route
  names : needsUniqueNameValidation ir = false → (∀ r ∈ refs, (r.row env.traits spec).valid) →
    ((structRow env.traits spec refs).columns.map ColumnSpec.name).Nodup

theorem StructIR.RefersTo.forall₂ (h : ir.RefersTo env spec refs) {R : ColumnIR → ColumnRef → Prop}
    (hR : ∀ c r, c.RefersTo r → ModelsRoute env spec r.route → R c r) : List.Forall₂ R ir.columns refs :=
  (forall₂_and_right h.columns h.models).imp fun c r hcr => hR c r hcr.2 hcr.1

theorem StructIR.RefersTo.nil (h : ir.RefersTo env spec refs) (hnil : ir.columns.isEmpty = true) : refs = [] := by
  have hlen := h.columns.length_eq
  rw [List.isEmpty_iff.mp hnil] at hlen
  exact List.length_eq_zero_iff.mp hlen.symm

theorem structRow_valid : (structRow env.traits spec refs).valid ↔ (∀ r ∈ refs, (r.row env.traits spec).valid) ∧
    ((structRow env.traits spec refs).columns.map ColumnSpec.name).Nodup := by
  refine and_congr_left fun _ => ?_
  rw [RowSpec.concat_valid, List.forall_mem_map]

theorem flatten_entries {rows : List RowSpec} {outs : List (List (String × DataType))}
    (h : List.Forall₂ (fun r out => out = r.entries) rows outs) : outs.flatten = (RowSpec.concat rows).entries := by
  induction h with
  | nil => rfl
  | cons hr _ ih =>
    rw [List.flatten_cons, ih, hr]
    exact List.map_append.symm

theorem entries_names (row : RowSpec) : row.entries.map (·.1) = row.columns.map ColumnSpec.name := by
  rw [RowSpec.entries, List.map_map]
  rfl

theorem schemaFn_runs (h : ir.RefersTo env spec refs) :
    Run.Spec (schemaFn env ir typeName) (structRow env.traits spec refs).valid
      (· = (structRow env.traits spec refs).entries) := by
  unfold schemaFn
  split
  · rename_i hnil
    obtain rfl := h.nil hnil
    exact Runs.pure ⟨trivial, .nil⟩ rfl
  · have hfields := Runs.mapM₂ (h.forall₂ (R := fun c r => Run.Spec (buildSchemaEntries env c)
      (r.row env.traits spec).valid (· = (r.row env.traits spec).entries)) fun c r hc hm => buildSchemaEntries_runs hc hm)
    refine Runs.congr (Runs.bind hfields fun hvalid fields hf => ?_) structRow_valid.symm
    have hflat : fields.flatten = (structRow env.traits spec refs).entries :=
      flatten_entries (List.forall₂_map_left_iff.mpr hf)
    rw [hflat, entries_names]
    refine Runs.congr (Runs.bind (uniqueNameValidation_runs fun hneeds => h.names hneeds hvalid) fun _ _ _ => ?_)
      (iff_of_eq (and_true _))
    exact Runs.pure trivial rfl

theorem emptyDataframeFn_runs (h : ir.RefersTo env spec refs) :
    Run.Spec (emptyDataframeFn env ir typeName) (structRow env.traits spec refs).valid
      (FrameOf (structRow env.traits spec refs).columns []) := by
  unfold emptyDataframeFn
  split
  · rename_i hnil
    obtain rfl := h.nil hnil
    obtain ⟨df, hdf, hframe⟩ := ColumnsOf.frame .nil .nil fun _ => rfl
    rw [hdf]
    exact Runs.pure ⟨trivial, .nil⟩ hframe
  · have hseries := Runs.mapM₂ (h.forall₂ (R := fun c r => Run.Spec (buildEmptySeries env c)
      (r.row env.traits spec).valid (ColumnsOf (r.row env.traits spec).columns [])) fun c r hc hm => buildEmptySeries_runs hc hm)
    refine Runs.congr (Runs.bind hseries fun hvalid series hs => ?_) structRow_valid.symm
    have hcols : ColumnsOf (structRow env.traits spec refs).columns [] series.flatten :=
      ColumnsOf.flatten (List.forall₂_map_left_iff.mpr hs)
    rw [hcols.names]
    refine Runs.congr (Runs.bind (uniqueNameValidation_runs fun hneeds => h.names hneeds hvalid) fun hn _ _ => ?_)
      (iff_of_eq (and_true _))
    obtain ⟨df, hdf, hframe⟩ := hcols.frame hn fun _ => rfl
    rw [hdf]
    exact Runs.pure trivial hframe

/-! ## Batches -/

theorem structRow_accepts (vs : List Value) : (structRow env.traits spec refs).Accepts vs ↔
    ∀ r ∈ refs, (r.row env.traits spec).Accepts vs := by
  show (RowSpec.concat _).Accepts vs ↔ _
  rw [RowSpec.concat_accepts, List.forall_mem_map]

theorem structRow_typed {v : Value} : (structRow env.traits spec refs).typed v ↔
    ∀ r ∈ refs, (r.row env.traits spec).typed v := by
  show (RowSpec.concat _).typed v ↔ _
  rw [RowSpec.concat_typed, List.forall_mem_map]

theorem columnarMethodBody_runs (typeName : String) (h : ir.RefersTo env spec refs) {items : List Operand}
    (hrows : RowItems items) (ht : ∀ it ∈ items, (structRow env.traits spec refs).typed it.erase) :
    Run.Spec (columnarMethodBody env ir typeName items)
      ((structRow env.traits spec refs).valid ∧ (structRow env.traits spec refs).Accepts (items.map Operand.erase))
      (FrameOf (structRow env.traits spec refs).columns (items.map Operand.erase)) := by
  unfold columnarMethodBody
  split
  · rename_i hnil
    obtain rfl := List.isEmpty_iff.mp hnil
    exact Runs.congr (emptyDataframeFn_runs h) (and_iff_left (RowSpec.accepts_nil _)).symm
  · rename_i hnil
    have hemits : List.Forall₂ (fun emit r => emit.Emits Fault.FromData items
        ((r.row env.traits spec).valid ∧ (r.row env.traits spec).Accepts (items.map Operand.erase))
        (ColumnsOf (r.row env.traits spec).columns (items.map Operand.erase)))
        (ir.columns.map (buildColumnEmit env)) refs := by
      have htyped : ∀ r ∈ refs, ∀ it ∈ items, (r.row env.traits spec).typed it.erase :=
        fun r hr it hit => structRow_typed.mp (ht it hit) r hr
      rw [List.forall₂_map_left_iff]
      exact (forall₂_and_right (forall₂_and_right h.columns h.models) htyped).imp
        fun c r hcr => hcr.2.2.emits hcr.2.1 hrows hcr.1
    have hG : ((∀ r ∈ refs, (r.row env.traits spec).valid ∧ (r.row env.traits spec).Accepts (items.map Operand.erase)) ∧
        ((structRow env.traits spec refs).columns.map ColumnSpec.name).Nodup) ↔
        (structRow env.traits spec refs).valid ∧ (structRow env.traits spec refs).Accepts (items.map Operand.erase) := by
      rw [structRow_valid, structRow_accepts, forall₂_and]
      tauto
    refine Runs.congr (Runs.bind (columnarParts_runs hemits) fun hvalid out hout => ?_) hG
    obtain ⟨outs, rfl, houts⟩ := hout
    have hcols : ColumnsOf (structRow env.traits spec refs).columns (items.map Operand.erase) outs.flatten :=
      ColumnsOf.flatten (List.forall₂_map_left_iff.mpr houts)
    rw [hcols.names]
    refine Runs.congr (Runs.bind (uniqueNameValidation_runs fun hneeds => h.names hneeds fun r hr => (hvalid r hr).1)
      fun hn _ _ => ?_) (iff_of_eq (and_true _))
    split
    · rename_i hempty
      obtain ⟨df, hdf, hc, hh⟩ := zeroColumnDataframeWithHeight_eq items.length
      have hcs : (structRow env.traits spec refs).columns = [] := by
        have := hcols.length_eq
        rw [List.isEmpty_iff.mp hempty] at this
        exact List.length_eq_zero_iff.mp this
      refine Runs.congr ?_ Iff.rfl
      have hbody : (do
          let df ← DataFrame.newInferHeight [(Series.newEmpty "_dummy" .null).extendNull items.length]
          df.dropInPlace "_dummy") = .ok df := hdf
      rw [hbody]
      refine Runs.pure trivial ⟨?_, ?_⟩
      · rw [hcs, hc]
        exact .nil
      · rw [hh, List.length_map]
    · rename_i hempty
      obtain ⟨df, hdf, hframe⟩ := hcols.frame hn fun h => absurd (List.isEmpty_iff.mpr h) hempty
      rw [hdf]
      exact Runs.pure trivial hframe

/-! ## The impls -/

theorem rowItems_borrowed (rows : List Value) : RowItems (borrowedItems rows) := by
  intro it hit
  obtain ⟨v, -, rfl⟩ := List.mem_map.mp hit
  rfl

theorem erase_borrowed (rows : List Value) : (borrowedItems rows).map Operand.erase = rows := by
  rw [borrowedItems, List.map_map]
  exact List.map_id rows

/-- The impls generated for a struct are those of its reference. -/
theorem generateImpl_models (h : ir.RefersTo env spec refs) :
    Models (generateImpl env ir typeName) (structRow env.traits spec refs) where
  schema := schemaFn_runs h
  emptyDataframe := emptyDataframeFn_runs h
  fromRefs vs ht := by
    have htyped : ∀ it ∈ borrowedItems vs, (structRow env.traits spec refs).typed it.erase := by
      intro it hit
      obtain ⟨v, hv, rfl⟩ := List.mem_map.mp hit
      exact ht v hv
    have hrun := columnarMethodBody_runs typeName h (rowItems_borrowed vs) htyped
    rw [erase_borrowed] at hrun
    exact hrun
  toDataframe _ := rfl
  direct rows := generateImpl_direct env ir typeName rows
  nil := rfl

end

end DfDerive
