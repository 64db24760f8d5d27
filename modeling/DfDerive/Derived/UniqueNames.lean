/-
  DfDerive.Derived.UniqueNames — no frame has two columns of one name.

  The schema of a struct has the names of its reference columns (`schemaFn_names`), which
  are distinct by construction or checked. The empty frame is the schema's
  (`emptyDataframeFn_eq`), so both fail on the same names, and with them every batch
  (`TypeTree.unique_names`).
-/

import DfDerive.Derived.Batches

namespace DfDerive

open Lib

/-! ## One struct -/

/-- The names of a row type, as far as it has a schema. -/
def Impl.columnNames (impl : Impl) : List String := (impl.schema.toOption.getD []).map Prod.fst

section

variable {env : Env} {ir : StructIR} {typeName : String}

/-- A column's entries have the names of its reference. -/
theorem buildSchemaEntries_names {c : ColumnIR} {r : ColumnRef} (h : c.RefersTo r) {entries : List (String × DataType)}
    (hok : buildSchemaEntries env c = .ok entries) :
    entries.map Prod.fst = r.columnNames fun ty => (env.impl ty).columnNames := by
  unfold buildSchemaEntries at hok
  unfold ColumnRef.columnNames
  rw [← h.route, ← h.name, ← h.policy]
  cases hroute : c.leafSpec.route with
  | primitive leaf =>
    rw [hroute] at hok
    cases hok
    rfl
  | nested nested =>
    rw [hroute] at hok
    obtain ⟨inner, hinner, hok⟩ := bind_eq_ok.mp hok
    cases hok
    have hnames : (env.impl nested.ty).columnNames = inner.map Prod.fst := by
      rw [Impl.columnNames, hinner]
      rfl
    show (inner.map _).map _ = ((env.impl nested.ty).columnNames).map _
    rw [hnames, List.map_map, List.map_map]
    rfl

theorem columns_names : ∀ {columns : List ColumnIR} {refs : List ColumnRef} {fields : List (List (String × DataType))},
    List.Forall₂ ColumnIR.RefersTo columns refs → List.Forall₂ (fun c out => buildSchemaEntries env c = .ok out) columns fields →
      fields.flatten.map Prod.fst = refs.flatMap (ColumnRef.columnNames fun ty => (env.impl ty).columnNames)
  | _, _, _, .nil, .nil => rfl
  | _, _, _, .cons href hrefs, .cons hout houts => by
    rw [List.flatten_cons, List.map_append, List.flatMap_cons, buildSchemaEntries_names href hout, columns_names hrefs houts]

/-- The schema's names are the reference's, checked when a field is flattened. -/
theorem schemaFn_names {refs : List ColumnRef} (h : List.Forall₂ ColumnIR.RefersTo ir.columns refs)
    {entries : List (String × DataType)} (hok : schemaFn env ir typeName = .ok entries) :
    entries.map Prod.fst = refs.flatMap (ColumnRef.columnNames fun ty => (env.impl ty).columnNames) ∧
      (needsUniqueNameValidation ir = true → (entries.map Prod.fst).Nodup) := by
  unfold schemaFn at hok
  split at hok
  · rename_i hempty
    rw [List.isEmpty_iff.mp hempty] at h
    cases h
    cases hok
    exact ⟨rfl, fun _ => List.nodup_nil⟩
  · obtain ⟨fields, hfields, hok⟩ := bind_eq_ok.mp hok
    obtain ⟨⟨⟩, hvalidation, hok⟩ := bind_eq_ok.mp hok
    cases hok
    refine ⟨columns_names h (mapM_eq_ok hfields), fun hneeds => ?_⟩
    rw [uniqueNameValidation, if_pos hneeds] at hvalidation
    exact ((validateUniqueColumnNames_runs typeName [] _).of_eq_ok hvalidation).1.1

/-- The empty frame has an empty series for every entry of the schema. -/
theorem emptyDataframeFn_eq : emptyDataframeFn env ir typeName = (do
    let entries ← schemaFn env ir typeName
    DataFrame.newInferHeight (entries.map fun e => Series.newEmpty e.1 e.2)) := by
  have hcolumn : ∀ c : ColumnIR, buildEmptySeries env c =
      (buildSchemaEntries env c).map (List.map fun e => Series.newEmpty e.1 e.2) := by
    intro c
    unfold buildEmptySeries buildSchemaEntries
    cases c.leafSpec.route with
    | primitive leaf => rfl
    | nested nested =>
      simp only [nestedEmptySeriesRow, generateSchemaEntriesForStruct]
      cases (env.impl nested.ty).schema with
      | error e => rfl
      | ok entries =>
        show Except.ok (entries.map _) = Except.ok ((entries.map _).map _)
        rw [List.map_map]
        rfl
  unfold emptyDataframeFn schemaFn
  split
  · rfl
  · rw [show buildEmptySeries env = fun c => _ from funext hcolumn, mapM_map]
    cases ir.columns.mapM (buildSchemaEntries env) with
    | error e => rfl
    | ok fields =>
      have hseries : (fields.map (List.map fun e => Series.newEmpty e.1 e.2)).flatten =
          fields.flatten.map fun e => Series.newEmpty e.1 e.2 := List.map_flatten.symm
      have hnames : (fields.flatten.map fun e => Series.newEmpty e.1 e.2).map Series.name = fields.flatten.map (·.1) :=
        List.map_map
      show (do uniqueNameValidation ir typeName _; DataFrame.newInferHeight _) = _
      rw [hseries, hnames, ok_bind]
      cases uniqueNameValidation ir typeName (fields.flatten.map (·.1)) with
      | error e => rfl
      | ok _ => rfl

/-- Empty series under distinct names make a frame. -/
theorem newInferHeight_newEmpty {entries : List (String × DataType)} (hn : (entries.map Prod.fst).Nodup) :
    ∃ df, DataFrame.newInferHeight (entries.map fun e => Series.newEmpty e.1 e.2) = .ok df := by
  have hheight : DataFrame.inferHeight (entries.map fun e => Series.newEmpty e.1 e.2) = 0 := by
    cases entries <;> rfl
  rw [DataFrame.newInferHeight, dif_pos, dif_pos]
  · exact ⟨_, rfl⟩
  · rw [List.map_map]
    exact hn
  · intro s hs
    obtain ⟨e, -, rfl⟩ := List.mem_map.mp hs
    rw [hheight]
    rfl

/-- A schema fails where a nested one does, or on a duplicate name. -/
theorem schemaFn_error {f : Fault} (h : schemaFn env ir typeName = .error f) :
    (∃ ty, (env.impl ty).schema = .error f) ∨ ∃ name, f = .err (.compute (.duplicateColumn name typeName)) := by
  have hvalidate : ∀ (names seen : List String), validateUniqueColumnNames typeName seen names = .error f →
      ∃ name, f = .err (.compute (.duplicateColumn name typeName)) := by
    intro names
    induction names with
    | nil => intro seen h; cases h
    | cons name names ih =>
      intro seen h
      rw [validateUniqueColumnNames] at h
      split at h
      · cases h
        exact ⟨name, rfl⟩
      · exact ih _ h
  unfold schemaFn at h
  split at h
  · cases h
  · cases hfields : ir.columns.mapM (buildSchemaEntries env) with
    | error e =>
      rw [hfields] at h
      cases h
      obtain ⟨c, -, hc⟩ := mapM_eq_error hfields
      unfold buildSchemaEntries at hc
      split at hc
      · rename_i nested hroute
        unfold generateSchemaEntriesForStruct at hc
        cases hschema : (env.impl nested.ty).schema with
        | error e =>
          rw [hschema] at hc
          cases hc
          exact Or.inl ⟨nested.ty, hschema⟩
        | ok entries =>
          rw [hschema] at hc
          cases hc
      · cases hc
    | ok fields =>
      rw [hfields, ok_bind] at h
      cases hvalidation : uniqueNameValidation ir typeName (fields.flatten.map (·.1)) with
      | error e =>
        rw [hvalidation] at h
        cases h
        unfold uniqueNameValidation at hvalidation
        split at hvalidation
        · exact Or.inr (hvalidate _ _ hvalidation)
        · cases hvalidation
      | ok _ =>
        rw [hvalidation] at h
        cases h

end

namespace DerivedStruct

variable (s : DerivedStruct)

/-- A struct's names are distinct when its children's are: by construction without a
    flattened field, by the validation with one. -/
theorem schema_nodup {env : Env} {typeName : String} (hchild : ∀ ty entries, (env.impl ty).schema = .ok entries →
    (entries.map Prod.fst).Nodup) {entries : List (String × DataType)} (hok : schemaFn env s.ir typeName = .ok entries) :
    (entries.map Prod.fst).Nodup := by
  obtain ⟨hnames, hchecked⟩ := schemaFn_names s.columns_refersTo hok
  by_cases hneeds : needsUniqueNameValidation s.ir = true
  · exact hchecked hneeds
  · rw [hnames]
    refine columnNames_nodup (s.refs_policy (by simpa using hneeds)) s.refs_apart fun r _ nested _ => ?_
    unfold Impl.columnNames
    cases hschema : (env.impl nested.ty).schema with
    | error f => exact List.nodup_nil
    | ok inner => exact hchild nested.ty inner hschema

end DerivedStruct

/-! ## Trees -/

namespace TypeTree

variable (tr : Traits) (t : TypeTree)

theorem schema_nodup : ∀ (t : TypeTree) {entries : List (String × DataType)}, (t.impl tr).schema = .ok entries →
    (entries.map Prod.fst).Nodup
  | .unit, _, h => by cases h; exact List.nodup_nil
  | .derived s _ types, _, h => s.schema_nodup (fun ty _ hty => (types ty).schema_nodup hty) h

theorem schema_error : ∀ (t : TypeTree) {f : Fault}, (t.impl tr).schema = .error f →
    ∃ name typeName, f = .err (.compute (.duplicateColumn name typeName))
  | .unit, _, h => by cases h
  | .derived _ typeName types, _, h => by
    rcases schemaFn_error h with ⟨ty, hty⟩ | ⟨name, hname⟩
    · exact (types ty).schema_error hty
    · exact ⟨name, typeName, hname⟩

/-- The empty frame fails as the schema does. -/
theorem emptyDataframe_error : ∀ (t : TypeTree) (f : Fault),
    (t.impl tr).schema = .error f ↔ (t.impl tr).emptyDataframe = .error f
  | .unit, f => by
    obtain ⟨df, hdf, -⟩ := newInferHeight_nil
    rw [show (TypeTree.unit.impl tr).emptyDataframe = .ok df from hdf]
    exact ⟨nofun, nofun⟩
  | .derived s typeName types, f => by
    have hschema := fun entries => @schema_nodup tr (.derived s typeName types) entries
    generalize himpl : (TypeTree.derived s typeName types).impl tr = impl at hschema ⊢
    have hempty : impl.emptyDataframe = (do
        let entries ← impl.schema
        DataFrame.newInferHeight (entries.map fun e => Series.newEmpty e.1 e.2)) := by
      rw [← himpl]
      exact emptyDataframeFn_eq
    rw [hempty]
    cases hrun : impl.schema with
    | error e =>
      rw [error_bind]
      exact ⟨fun h => by cases h; rfl, fun h => by cases h; rfl⟩
    | ok entries =>
      obtain ⟨df, hdf⟩ := newInferHeight_newEmpty (hschema entries hrun)
      rw [ok_bind, hdf]
      exact ⟨nofun, nofun⟩

/-- Column names are distinct, and duplicate names are an error at every entry point: of
    the schema exactly when of the empty frame, and then of every batch. -/
theorem unique_names :
    (∀ entries, (t.impl tr).schema = .ok entries → (entries.map Prod.fst).Nodup) ∧
    (∀ (s : DerivedStruct) (env : Env) (typeName : String), needsUniqueNameValidation s.ir = false →
      (∀ ty entries, (env.impl ty).schema = .ok entries → (entries.map Prod.fst).Nodup) →
        ∀ entries, (generateImpl env s.ir typeName).schema = .ok entries → (entries.map Prod.fst).Nodup) ∧
    (∀ f, (t.impl tr).schema = .error f ↔ (t.impl tr).emptyDataframe = .error f) ∧
    (∀ f, (t.impl tr).schema = .error f → (∃ name typeName, f = .err (.compute (.duplicateColumn name typeName))) ∧
      ∀ vs, (∀ v ∈ vs, (t.spec tr).typed v) → ((t.impl tr).columnarToDataframe vs).Fails ∧
        ((t.impl tr).columnarFromRefs vs).Fails ∧ ((t.impl tr).toDataFrameVec vs).Fails) ∧
    (∀ df, ((t.impl tr).emptyDataframe = .ok df ∨ (∃ v, (t.impl tr).toDataframe v = .ok df) ∨
      ∃ vs, (t.impl tr).columnarToDataframe vs = .ok df ∨ (t.impl tr).columnarFromRefs vs = .ok df) →
        (df.columns.map Series.name).Nodup) := by
  have hm := t.models tr
  refine ⟨fun entries h => schema_nodup tr t h, fun s env typeName _ hchild entries h => s.schema_nodup hchild h,
    emptyDataframe_error tr t, fun f h => ⟨schema_error tr t h, fun vs ht => ?_⟩, fun df _ => df.names⟩
  have hinvalid : ¬ (t.spec tr).valid := fun hvalid => by
    obtain ⟨entries, hok, -⟩ := hm.schema.1 hvalid
    rw [h] at hok
    cases hok
  have hfails : ((t.impl tr).columnarToDataframe vs).Fails := (hm.fails ht).mpr fun hall => hinvalid hall.1
  refine ⟨hfails, ?_, ?_⟩
  · rw [← hm.direct]
    exact hfails
  · rw [hm.toDataFrameVec]
    exact hfails

end TypeTree

end DfDerive
