/-
  DfDerive.Columns.Manual — nested types with implementations written by hand.

  Nothing is assumed of what such an implementation answers: not the number of rows, not the
  names or dtypes of its columns, not that its schema and its frame agree. The parent then
  either returns an `Err` or a frame with the columns its schema declares
  (`DerivedStruct.manual_nested`).
-/

import DfDerive.Columns.Alone

namespace DfDerive

open Lib

/-! ## Rows over opaque nested types -/

/-- The rows of a struct, the values of nested types being those of `P`. -/
def DerivedStruct.RowTyped (s : DerivedStruct) (P : TypePath → Value → Prop) (v : Value) : Prop :=
  ∀ r ∈ s.refs, r.walk.typed (r.route.typed P) v

/-! ## Declared columns -/

/-- The series a column gives `n` rows have the names and dtypes its schema entries declare;
    those of a nested type are below whole lists of the column. -/
def ColumnIR.Declared (env : Env) (c : ColumnIR) (n : Nat) (out : List Series) : Prop :=
  match c.leafSpec.route with
  | .primitive leaf => ∃ s, out = [s] ∧ s.name = c.name ∧ s.dtype = columnFullDtype leaf c.vecDepth ∧ s.len = n
  | .nested nested => ∃ entries, (env.impl nested.ty).schema = .ok entries ∧ List.Forall₂ (fun e s =>
      s.name = composeNestedName c.nestedNamePolicy c.name e.1 ∧ s.dtype = wrapListLayers e.2 c.vecDepth ∧
        (0 < n → s.chunk.Exact c.vecDepth) ∧ s.len = n) entries out

section

variable {env : Env} {c : ColumnIR} {n : Nat} {out : List Series}

theorem ColumnIR.Declared.len (h : c.Declared env n out) : ∀ s ∈ out, s.len = n := by
  unfold ColumnIR.Declared at h
  cases hroute : c.leafSpec.route with
  | primitive leaf =>
    rw [hroute] at h
    obtain ⟨s, rfl, -, -, hlen⟩ := h
    intro t ht
    rw [List.mem_singleton.mp ht]
    exact hlen
  | nested nested =>
    rw [hroute] at h
    obtain ⟨entries, -, hout⟩ := h
    intro t ht
    clear hroute
    induction hout with
    | nil => cases ht
    | cons he _ ih =>
      rcases List.mem_cons.mp ht with rfl | ht
      · exact he.2.2.2
      · exact ih ht

/-- The column's part of the schema. -/
theorem ColumnIR.Declared.entries (h : c.Declared env n out) :
    buildSchemaEntries env c = .ok (out.map fun s => (s.name, s.dtype)) := by
  unfold ColumnIR.Declared at h
  unfold buildSchemaEntries
  cases hroute : c.leafSpec.route with
  | primitive leaf =>
    rw [hroute] at h
    obtain ⟨s, rfl, hname, hdtype, -⟩ := h
    rw [List.map_singleton, hname, hdtype]
  | nested nested =>
    rw [hroute] at h
    obtain ⟨entries, hschema, hout⟩ := h
    simp only [generateSchemaEntriesForStruct, hschema, ok_bind, Except.ok.injEq]
    clear hroute hschema
    induction hout with
    | nil => rfl
    | cons he _ ih =>
      rw [List.map_cons, List.map_cons, ih, he.1, he.2.1]

/-- The empty series of a column. -/
theorem buildEmptySeries_declared (hanswers : ∀ nested, c.leafSpec.route = .nested nested →
    ∀ f, (env.impl nested.ty).schema = .error f → f.Reported) :
    Safe Fault.Reported (buildEmptySeries env c) (c.Declared env 0) := by
  unfold buildEmptySeries ColumnIR.Declared
  cases hroute : c.leafSpec.route with
  | primitive leaf => exact .pure ⟨_, rfl, rfl, rfl, rfl⟩
  | nested nested =>
    simp only [nestedEmptySeriesRow]
    cases hschema : (env.impl nested.ty).schema with
    | error f => exact Or.inr ⟨f, rfl, hanswers nested hroute f hschema⟩
    | ok entries =>
      refine .pure ⟨entries, rfl, ?_⟩
      rw [List.forall₂_map_right_iff]
      exact List.forall₂_same.mpr fun e _ => ⟨rfl, rfl, fun h => absurd h (Nat.lt_irrefl 0), rfl⟩

/-- A column's part of a batch, whatever the nested types answer. -/
theorem ColumnIR.RefersTo.declared {r : ColumnRef} {P : TypePath → Value → Prop} {items : List Operand} (h : c.RefersTo r)
    (hanswers : ∀ ty, (env.impl ty).Answers (P ty)) (hrows : RowItems items)
    (ht : ∀ it ∈ items, r.walk.typed (r.route.typed P) it.erase) :
    ∃ G, (buildColumnEmit env c).Emits Fault.Reported items G (c.Declared env items.length) := by
  unfold ColumnIR.Declared
  cases hroute : c.leafSpec.route with
  | primitive leaf =>
    have hleaf : r.route.typed P = LeafTyped leaf := by
      rw [← h.route, hroute]
      rfl
    rw [hleaf] at ht
    refine ⟨_, ((h.follows.primitive env leaf items hroute hrows ht).weaken fun _ hf => hf.reported).mono fun _ out hout => ?_⟩
    obtain ⟨s, rfl, hname, hdtype, hcells⟩ := hout
    refine ⟨s, rfl, hname, ?_, ?_⟩
    · rw [hdtype, columnFullDtype, h.follows.depth]
    · rw [Series.len, hcells, List.length_map, List.length_map]
  | nested nested =>
    have hleaf : r.route.typed P = P nested.ty := by
      rw [← h.route, hroute]
      rfl
    rw [hleaf] at ht
    obtain ⟨used, -, hemits⟩ := h.follows.nested env nested items hroute hrows ht
      ((hanswers nested.ty).within (Walk.leaves_typed ht))
    refine ⟨_, hemits.mono fun _ out hout => ?_⟩
    obtain ⟨entries, hschema, hseries⟩ := hout.entries fun f => by rw [List.length_map, List.length_map]
    refine ⟨entries, hschema, hseries.imp fun e s hs => ⟨hs.1, ?_, fun _ => ?_, hs.2.2.2⟩⟩
    · rw [hs.2.1, h.follows.depth]
    · rw [h.follows.depth]
      exact hs.2.2.1

end

/-! ## Batches -/

section

variable {env : Env} {ir : StructIR} {typeName : String} {n : Nat}

/-- The frame of a batch: the declared columns of each column, and their schema. -/
structure DeclaredFrame (env : Env) (ir : StructIR) (typeName : String) (n : Nat) (df : DataFrame) : Prop where
  height : df.height = n
  columns : ∃ groups, df.columns = groups.flatten ∧ List.Forall₂ (fun c out => c.Declared env n out) ir.columns groups
  schema : schemaFn env ir typeName = .ok df.fields

theorem flatten_len {columns : List ColumnIR} {groups : List (List Series)}
    (h : List.Forall₂ (fun c out => c.Declared env n out) columns groups) : ∀ s ∈ groups.flatten, s.len = n := by
  induction h with
  | nil => exact nofun
  | cons hc _ ih =>
    intro s hs
    rcases List.mem_append.mp hs with hs | hs
    · exact hc.len s hs
    · exact ih s hs

theorem schemaEntries_declared {columns : List ColumnIR} {groups : List (List Series)}
    (h : List.Forall₂ (fun c out => c.Declared env n out) columns groups) :
    columns.mapM (buildSchemaEntries env) = .ok (groups.map (List.map fun s => (s.name, s.dtype))) := by
  induction h with
  | nil => rfl
  | cons hc _ ih =>
    rw [List.mapM_cons, hc.entries, ih]
    rfl

/-- Checked names make the schema of the columns. -/
theorem schemaFn_declared {groups : List (List Series)}
    (h : List.Forall₂ (fun c out => c.Declared env n out) ir.columns groups)
    (hnames : uniqueNameValidation ir typeName (groups.flatten.map Series.name) = .ok ()) :
    schemaFn env ir typeName = .ok (groups.flatten.map fun s => (s.name, s.dtype)) := by
  have hflat : (groups.map (List.map fun s : Series => (s.name, s.dtype))).flatten =
      groups.flatten.map fun s => (s.name, s.dtype) := (List.map_flatten).symm
  have hfst : (groups.flatten.map fun s : Series => (s.name, s.dtype)).map (·.1) = groups.flatten.map Series.name :=
    List.map_map
  unfold schemaFn
  cases hcols : ir.columns with
  | nil =>
    rw [hcols] at h
    cases h
    rfl
  | cons c cs =>
    rw [hcols] at h
    simp only [List.isEmpty_cons, Bool.false_eq_true, ite_false, schemaEntries_declared h, ok_bind, hflat, hfst, hnames]

theorem newInferHeight_safe {ss : List Series} (hlen : ∀ s ∈ ss, s.len = n) (hnil : ss = [] → n = 0) :
    Safe Fault.Reported (DataFrame.newInferHeight ss) (fun df => df.columns = ss ∧ df.height = n) := by
  have hheight : DataFrame.inferHeight ss = n := by
    cases ss with
    | nil => exact (hnil rfl).symm
    | cons s ss => exact hlen s List.mem_cons_self
  have hlens : ∀ s ∈ ss, s.len = DataFrame.inferHeight ss := by
    rw [hheight]
    exact hlen
  rw [DataFrame.newInferHeight, dif_pos hlens]
  by_cases hn : (ss.map Series.name).Nodup
  · rw [dif_pos hn]
    exact .pure ⟨rfl, hheight⟩
  · rw [dif_neg hn]
    exact Or.inr ⟨_, rfl, trivial⟩

theorem uniqueNameValidation_safe (names : List String) :
    Safe Fault.Reported (uniqueNameValidation ir typeName names)
      (fun _ => uniqueNameValidation ir typeName names = .ok ()) := by
  have hsafe : Safe Fault.Reported (uniqueNameValidation ir typeName names) fun _ => True := by
    unfold uniqueNameValidation
    split
    · exact ((validateUniqueColumnNames_runs typeName [] names).weaken fun _ hf => hf.reported).safe
    · exact .pure trivial
  rcases hsafe with ⟨u, hu, -⟩ | herror
  · exact Or.inl ⟨u, hu, hu⟩
  · exact Or.inr herror

/-- The empty frame. -/
theorem emptyDataframeFn_declared (hanswers : ∀ ty f, (env.impl ty).schema = .error f → f.Reported) :
    Safe Fault.Reported (emptyDataframeFn env ir typeName) (DeclaredFrame env ir typeName 0) := by
  unfold emptyDataframeFn
  split
  · rename_i hnil
    have hcols : ir.columns = [] := List.isEmpty_iff.mp hnil
    obtain ⟨df, hdf, hnone, hheight⟩ := newInferHeight_nil
    rw [hdf]
    refine .pure ⟨hheight, ⟨[], hnone, hcols ▸ .nil⟩, ?_⟩
    rw [schemaFn, if_pos hnil, DataFrame.fields, hnone]
    rfl
  · refine Safe.bind (Safe.mapM₂ (R := fun c : ColumnIR => c.Declared env 0)
      (List.forall₂_same.mpr fun c _ => buildEmptySeries_declared fun nested _ => hanswers nested.ty)) fun groups hgroups => ?_
    refine Safe.bind (uniqueNameValidation_safe _) fun _ hnames => ?_
    rcases newInferHeight_safe (flatten_len hgroups) (fun _ => rfl) with ⟨df, hdf, hcols, hheight⟩ | herror
    · rw [hdf]
      refine .pure ⟨hheight, ⟨groups, hcols, hgroups⟩, ?_⟩
      rw [schemaFn_declared hgroups hnames, DataFrame.fields, hcols]
    · exact Or.inr herror

/-- The conditions of the elements of a list, chosen. -/
theorem conditions_exist {α : Type} {R : α → Prop → Prop} : ∀ {l : List α}, (∀ a ∈ l, ∃ G, R a G) →
    ∃ conds : List (α × Prop), conds.map Prod.fst = l ∧ ∀ cond ∈ conds, R cond.1 cond.2
  | [], _ => ⟨[], rfl, nofun⟩
  | a :: l, h => by
    obtain ⟨G, hG⟩ := h a List.mem_cons_self
    obtain ⟨conds, rfl, hconds⟩ := conditions_exist fun b hb => h b (List.mem_cons_of_mem a hb)
    exact ⟨(a, G) :: conds, rfl, List.forall_mem_cons.mpr ⟨hG, hconds⟩⟩

/-- Whatever the nested types answer, a batch is an `Err` or the frame its schema declares. -/
theorem columnarMethodBody_declared (typeName : String) {P : TypePath → Value → Prop} {refs : List ColumnRef}
    {items : List Operand}
    (hcols : List.Forall₂ ColumnIR.RefersTo ir.columns refs) (hanswers : ∀ ty, (env.impl ty).Answers (P ty))
    (hrows : RowItems items) (ht : ∀ it ∈ items, ∀ r ∈ refs, r.walk.typed (r.route.typed P) it.erase) :
    Safe Fault.Reported (columnarMethodBody env ir typeName items) (DeclaredFrame env ir typeName items.length) := by
  unfold columnarMethodBody
  split
  · rename_i hnil
    obtain rfl := List.isEmpty_iff.mp hnil
    exact emptyDataframeFn_declared fun ty => (hanswers ty).schema
  · rename_i hne
    have hemits : ∀ c ∈ ir.columns, ∃ G, (buildColumnEmit env c).Emits Fault.Reported items G
        (c.Declared env items.length) := by
      intro c hc
      obtain ⟨r, hr, hcr⟩ := exists_related hcols c hc
      exact hcr.declared hanswers hrows fun it hit => ht it hit r hr
    obtain ⟨conds, hconds, hstages⟩ := conditions_exist hemits
    have hparts : Safe Fault.Reported (columnarParts (ir.columns.map (buildColumnEmit env)) items) fun out =>
        ∃ groups, out = groups.flatten ∧ List.Forall₂ (fun c group => c.Declared env items.length group) ir.columns groups := by
      rw [← hconds, List.map_map]
      have hrun := columnarParts_runs (G := Prod.snd) (P := fun cond : ColumnIR × Prop => cond.1.Declared env items.length)
        (List.forall₂_map_left_iff.mpr (List.forall₂_same.mpr hstages))
      rcases hrun.safe with ⟨out, hout, groups, rfl, hgroups⟩ | herror
      · exact Or.inl ⟨_, hout, groups, rfl, List.forall₂_map_left_iff.mpr hgroups⟩
      · exact Or.inr herror
    refine Safe.bind hparts fun out hout => ?_
    obtain ⟨groups, rfl, hgroups⟩ := hout
    refine Safe.bind (uniqueNameValidation_safe _) fun _ hnames => ?_
    have hschema := schemaFn_declared hgroups hnames
    split
    · rename_i hempty
      have hflat : groups.flatten = [] := List.isEmpty_iff.mp hempty
      obtain ⟨df, hdf, hnone, hheight⟩ := zeroColumnDataframeWithHeight_eq items.length
      have hbody : (do
          let df ← DataFrame.newInferHeight [(Series.newEmpty "_dummy" .null).extendNull items.length]
          df.dropInPlace "_dummy") = .ok df := hdf
      rw [hbody]
      refine .pure ⟨hheight, ⟨groups, hnone.trans hflat.symm, hgroups⟩, ?_⟩
      rw [hschema, DataFrame.fields, hnone, hflat]
    · rename_i hempty
      have hnil : groups.flatten = [] → items.length = 0 := fun h => absurd (List.isEmpty_iff.mpr h) hempty
      rcases newInferHeight_safe (flatten_len hgroups) hnil with ⟨df, hdf, hdfcols, hheight⟩ | herror
      · rw [hdf]
        refine .pure ⟨hheight, ⟨groups, hdfcols, hgroups⟩, ?_⟩
        rw [hschema, DataFrame.fields, hdfcols]
      · exact Or.inr herror

end

/-- A parent of nested types that may answer anything: a batch ends in an `Err`, never in a
    panic, an index out of range or an unchecked list over the wrong array, or in a frame of
    the height of the batch, whose columns are the ones the parent's schema declares. -/
theorem DerivedStruct.manual_nested (s : DerivedStruct) (env : Env) (typeName : String) {P : TypePath → Value → Prop}
    (hanswers : ∀ ty, (env.impl ty).Answers (P ty)) (rows : List Value) (ht : ∀ v ∈ rows, s.RowTyped P v) :
    (∀ f, (generateImpl env s.ir typeName).columnarFromRefs rows = .error f → f.Reported) ∧
    (∀ df, (generateImpl env s.ir typeName).columnarFromRefs rows = .ok df →
      DeclaredFrame env s.ir typeName rows.length df) ∧
    (generateImpl env s.ir typeName).columnarToDataframe rows = (generateImpl env s.ir typeName).columnarFromRefs rows := by
  have htyped : ∀ it ∈ borrowedItems rows, ∀ r ∈ s.refs, r.walk.typed (r.route.typed P) it.erase := by
    intro it hit
    obtain ⟨v, hv, rfl⟩ := List.mem_map.mp hit
    exact ht v hv
  have hlen : (borrowedItems rows).length = rows.length := List.length_map _
  have hbody := columnarMethodBody_declared typeName s.columns_refersTo hanswers (rowItems_borrowed rows) htyped
  rw [hlen] at hbody
  refine ⟨fun f hf => ?_, fun df hdf => ?_, generateImpl_direct env s.ir typeName rows⟩
  · rcases hbody with ⟨df, hdf, -⟩ | ⟨e, he, hreported⟩
    · cases hf.symm.trans hdf
    · cases hf.symm.trans he
      exact hreported
  · rcases hbody with ⟨df', hdf', hframe⟩ | ⟨e, he, -⟩
    · cases hdf.symm.trans hdf'
      exact hframe
    · cases hdf.symm.trans he

/-- An implementation with a column in its schema and none in its frames, which have no rows. -/
def forgetfulImpl : Impl where
  typeName := "Point"
  toDataframe _ := DataFrame.newInferHeight []
  emptyDataframe := DataFrame.newInferHeight []
  schema := .ok [("x", .int64)]
  columnarToDataframe _ := DataFrame.newInferHeight []
  columnarFromRefs _ := DataFrame.newInferHeight []

theorem forgetfulImpl_answers : forgetfulImpl.Answers fun _ => True where
  schema _ hf := nomatch hf
  batch _ _ _ hf := by
    obtain ⟨df, hdf, -⟩ := newInferHeight_nil
    cases hf.symm.trans hdf

theorem trackRow_rowTyped : trackStruct.RowTyped (fun _ _ => True) trackRow := by
  have hpoints : HasWord (fun _ => True) [.vec, .option] (.vec [.some (pointRow 1), .none]) := by
    intro u hu
    rcases List.mem_cons.mp hu with rfl | hu
    · trivial
    · rw [List.mem_singleton.mp hu]
      trivial
  exact List.forall_mem_cons.mpr ⟨⟨_, rfl, hpoints⟩, List.forall_mem_cons.mpr ⟨⟨_, rfl, trivial⟩,
    List.forall_mem_cons.mpr ⟨⟨_, rfl, trivial⟩, nofun⟩⟩⟩

/-- The parent of a type that loses its rows reports it. -/
theorem DerivedStruct.manual_nested_track : ∃ f, (generateImpl ⟨brokenTraits, fun _ => forgetfulImpl⟩ trackStruct.ir
    "Track").columnarFromRefs [trackRow] = .error f ∧ f.Reported := by
  have hsafe := trackStruct.manual_nested ⟨brokenTraits, fun _ => forgetfulImpl⟩ "Track" (fun _ => forgetfulImpl_answers)
    [trackRow] (List.forall_mem_singleton.mpr trackRow_rowTyped)
  cases hrun : (generateImpl ⟨brokenTraits, fun _ => forgetfulImpl⟩ trackStruct.ir "Track").columnarFromRefs [trackRow] with
  | error f => exact ⟨f, rfl, hsafe.1 f hrun⟩
  | ok df =>
    have herror : ((generateImpl ⟨brokenTraits, fun _ => forgetfulImpl⟩ trackStruct.ir "Track").columnarFromRefs
        [trackRow]).toBool = false := rfl
    rw [hrun] at herror
    cases herror

end DfDerive
