/-
  DfDerive.Columns.Inlined — a flattened field, and the fields of its struct in its place.

  `#[df_derive(flatten)] p: P` goes through the batch of `P` and keeps the names of its
  columns. Where the names are distinct, the fields of `P` can be written among the fields
  around `p` instead, and then each is encoded by itself.
  - `Flattened.accepted`: where `P` and the struct around `p` are accepted, so is the struct
    with the fields of `P` in place of `p`.
  - `flattened_inlined`: both have the same schema and the same frames, or both fail.

  Accepted is what lowers. The derive also refuses a field that holds its own struct, by its
  path as written; the fields of `P` are those of another struct here.
-/

import DfDerive.Columns.Reread
import DfDerive.Columns.TupleStructs
import DfDerive.Lower.Acceptance
import DfDerive.Lower.ByName

namespace DfDerive

open Lib

/-! ## The struct with the fields in place -/

def NestedLeaf.base : NestedLeaf → LeafBase
  | .struct ty => .struct ty
  | .generic ident => .generic ident

def NestedLeaf.leafSpec : NestedLeaf → LeafSpec
  | .struct ty => .struct ty
  | .generic ident => .generic ident

/-- `P` below `depth` pointers. -/
def NestedLeaf.pointed (nested : NestedLeaf) (depth : Nat) : RustType :=
  .mk (List.replicate depth .smartPtr) (.leaf nested.base)

theorem peelTypeWrappers_pointers (depth : Nat) : peelTypeWrappers (List.replicate depth .smartPtr) = ⟨[], depth⟩ := by
  have hnil := (peelTypeWrappers_nil (List.replicate depth .smartPtr)).mpr fun _ hw => List.eq_of_mem_replicate hw
  have hstack := (peelTypeWrappers_of (List.replicate depth .smartPtr)).stack
  generalize peelTypeWrappers (List.replicate depth .smartPtr) = p at hnil hstack
  obtain ⟨wrappers, outer⟩ := p
  obtain rfl : wrappers = [] := hnil
  have hlen := congrArg List.length hstack
  rw [List.append_nil, List.length_replicate, List.length_replicate] at hlen
  rw [hlen]

theorem flatten_lowered (nested : NestedLeaf) (depth : Nat) (name : String) :
    lowerField ⟨nested.pointed depth, .include (.flatten none)⟩ name none =
      .ok (some ⟨name, none, nested.leafSpec, .leaf .bare, depth, .flatten⟩) := by
  have hty : analyzeType (nested.pointed depth) = .ok (.mk (.leaf nested.base) [] depth) := by
    show Except.ok (AnalyzedType.mk (.leaf nested.base) (peelTypeWrappers (List.replicate depth .smartPtr)).wrappers
      (peelTypeWrappers (List.replicate depth .smartPtr)).outerSmartPtrDepth) = _
    rw [peelTypeWrappers_pointers]
  refine bind_eq_ok.mpr ⟨_, hty, ?_⟩
  cases nested <;> rfl

/-- `#[df_derive(flatten)] name: P` among the fields of an accepted struct, below `depth`
    pointers, and the accepted struct `P`, whose fields have other names than those around it. -/
structure Flattened where
  host : DerivedStruct
  inner : DerivedStruct
  before : List (String × FieldDecl)
  after : List (String × FieldDecl)
  name : String
  depth : Nat
  nested : NestedLeaf
  host_fields : host.input.fields.byName = before ++ (name, ⟨nested.pointed depth, .include (.flatten none)⟩) :: after
  identifiers : (Fields.named (before ++ (inner.input.fields.byName ++ after))).Identifiers

namespace Flattened

variable (x : Flattened)

/-- The fields of `P` in the place of the flattened field. -/
def fields : List (String × FieldDecl) := x.before ++ (x.inner.input.fields.byName ++ x.after)

/-- What lowering finds around the flattened field. -/
structure Lowered (before : List FieldIR) (field : FieldIR) (after : List FieldIR) : Prop where
  host : x.host.fields = before ++ field :: after
  before : lowerNamedFields x.before = .ok (before.map FieldIR.byName)
  field : field.byName = ⟨x.name, none, x.nested.leafSpec, .leaf .bare, x.depth, .flatten⟩
  after : lowerNamedFields x.after = .ok (after.map FieldIR.byName)

theorem exists_lowered : ∃ before field after, x.Lowered before field after := by
  have hhost := lowerFields_byName x.host.lowered
  rw [x.host_fields] at hhost
  obtain ⟨first, rest, hfirst, hrest, hfields⟩ := lowerNamedFields_append.mp hhost
  obtain ⟨flat, hflat, hrest⟩ := bind_eq_ok.mp hrest
  obtain ⟨tail, htail, hok⟩ := bind_eq_ok.mp hrest
  cases hok
  cases (flatten_lowered x.nested x.depth x.name).symm.trans hflat
  obtain ⟨before, others, hsplit, rfl, hothers⟩ := List.map_eq_append_iff.mp hfields
  obtain ⟨field, after, rfl, hfield, rfl⟩ := List.map_eq_cons_iff.mp hothers
  exact ⟨before, field, after, hsplit, hfirst, hfield, htail⟩

variable {x}

theorem Lowered.inlined {before after : List FieldIR} {field : FieldIR} (h : x.Lowered before field after) :
    lowerNamedFields x.fields = .ok (before.map FieldIR.byName ++ (x.inner.fields.map FieldIR.byName ++
      after.map FieldIR.byName)) :=
  lowerNamedFields_append.mpr ⟨_, _, h.before,
    lowerNamedFields_append.mpr ⟨_, _, lowerFields_byName x.inner.lowered, h.after, rfl⟩, rfl⟩

variable (x)

theorem accepted : ∃ lowered, lowerNamedFields x.fields = .ok lowered := by
  obtain ⟨before, field, after, h⟩ := x.exists_lowered
  exact ⟨_, h.inlined⟩

/-- The struct with the fields of `P` in place of the flattened field. -/
def inlined : DerivedStruct where
  input := ⟨x.host.input.ident, .named x.fields⟩
  identifiers := x.identifiers
  fields := (lowerNamedFields x.fields).toOption.getD []
  lowered := by
    obtain ⟨lowered, h⟩ := x.accepted
    show lowerNamedFields x.fields = _
    rw [h]
    rfl

variable {x}

theorem Lowered.inlined_fields {before after : List FieldIR} {field : FieldIR} (h : x.Lowered before field after) :
    x.inlined.fields = before.map FieldIR.byName ++ (x.inner.fields.map FieldIR.byName ++ after.map FieldIR.byName) := by
  show (lowerNamedFields x.fields).toOption.getD [] = _
  rw [h.inlined]
  rfl

/-! ## Rows -/

theorem Lowered.name_ne {before after : List FieldIR} {field : FieldIR} (h : x.Lowered before field after) :
    ∀ f ∈ before ++ after, f.name ≠ x.name := by
  have hname : field.name = x.name := congrArg FieldIR.name h.field
  have hnames := lowerFields_names x.host.identifiers x.host.lowered
  rw [h.host, List.map_append, List.map_cons, List.nodup_append, List.nodup_cons, hname] at hnames
  obtain ⟨-, ⟨hafter, -⟩, hbefore⟩ := hnames
  intro f hf
  rcases List.mem_append.mp hf with hf | hf
  · exact hbefore f.name (List.mem_map_of_mem hf) x.name List.mem_cons_self
  · exact fun heq => hafter (heq ▸ List.mem_map_of_mem hf)

variable (x)

/-- The second row has the fields of the first, and those of its `P` in place of `P`. -/
structure Inlines (row row' : Value) : Prop where
  others : ∀ f ∈ x.host.fields, f.name ≠ x.name → f.byName.root.raw? row' = f.root.raw? row
  inner : ∀ f ∈ x.host.fields, f.name = x.name → ∀ q ∈ x.inner.fields,
    q.byName.root.raw? row' = (f.root.value? row).bind q.root.raw?

/-- What the fields of the inlined struct hold. -/
def entries (row : Value) : List (String × Option Value) :=
  x.host.fields.flatMap fun f =>
    if f.name = x.name then x.inner.fields.map fun q => (q.name, (f.root.value? row).bind q.root.raw?)
    else [(f.name, f.root.raw? row)]

def inlineRow (row : Value) : Value := .struct ((x.entries row).filterMap fun e => e.2.map (e.1, ·))

theorem entries_keys (row : Value) : (x.entries row).map (·.1) = x.inlined.fields.map FieldIR.name := by
  obtain ⟨before, field, after, h⟩ := x.exists_lowered
  have hname : field.name = x.name := congrArg FieldIR.name h.field
  have hothers : ∀ fields : List FieldIR, (∀ f ∈ fields, f.name ≠ x.name) →
      ((fields.flatMap fun f =>
        if f.name = x.name then x.inner.fields.map fun q => (q.name, (f.root.value? row).bind q.root.raw?)
        else [(f.name, f.root.raw? row)]).map (·.1)) = (fields.map FieldIR.byName).map FieldIR.name := by
    intro fields hne
    rw [List.map_map, List.map_eq_flatMap, List.map_eq_flatMap, List.flatMap_assoc]
    refine List.flatMap_congr fun f hf => ?_
    rw [if_neg (hne f hf)]
    rfl
  have hinner : (x.inner.fields.map fun q => (q.name, (field.root.value? row).bind q.root.raw?)).map (·.1) =
      (x.inner.fields.map FieldIR.byName).map FieldIR.name := by
    rw [List.map_map, List.map_map]
    rfl
  have hne := List.forall_mem_append.mp h.name_ne
  rw [entries, h.host, List.flatMap_append, List.flatMap_cons, if_pos hname, List.map_append, List.map_append,
    hothers before hne.1, hothers after hne.2, h.inlined_fields, List.map_append, List.map_append, hinner]

end Flattened

/-- Looking up by a name, where every name has at most one value. -/
theorem find_of_nodup {k : String} {v : Option Value} : ∀ {entries : List (String × Option Value)},
    (entries.map (·.1)).Nodup → (k, v) ∈ entries →
      ((entries.filterMap fun e => e.2.map (e.1, ·)).find? (·.1 == k)).map (·.2) = v
  | (name, value) :: entries, hnodup, hmem => by
    rw [List.map_cons, List.nodup_cons] at hnodup
    obtain ⟨hnew, hnodup⟩ := hnodup
    rcases List.mem_cons.mp hmem with heq | hmem
    · obtain ⟨rfl, rfl⟩ := Prod.mk.inj heq
      cases v with
      | some v => simp
      | none =>
        have hnone : (entries.filterMap fun e => e.2.map (e.1, ·)).find? (·.1 == k) = none := by
          refine List.find?_eq_none.mpr fun e he hek => hnew ?_
          obtain ⟨⟨name, value⟩, hentry, hvalue⟩ := List.mem_filterMap.mp he
          obtain ⟨v, rfl, rfl⟩ := Option.map_eq_some_iff.mp hvalue
          exact List.mem_map.mpr ⟨_, hentry, eq_of_beq hek⟩
        rw [List.filterMap_cons_none rfl, hnone]
        rfl
    · have hne : name ≠ k := by
        rintro rfl
        exact hnew (List.mem_map.mpr ⟨_, hmem, rfl⟩)
      have hrest := find_of_nodup hnodup hmem
      cases value with
      | none =>
        rw [List.filterMap_cons_none rfl]
        exact hrest
      | some value =>
        have hsplit : ((name, some value) :: entries).filterMap (fun e => e.2.map (e.1, ·)) =
            (name, value) :: entries.filterMap fun e => e.2.map (e.1, ·) := rfl
        rw [hsplit, List.find?_cons_of_neg (by simpa using hne)]
        exact hrest

namespace Flattened

variable (x : Flattened)

/-- Every row has its fields inlined in one. -/
theorem inlines_inlineRow (row : Value) : x.Inlines row (x.inlineRow row) := by
  have hnodup : ((x.entries row).map (·.1)).Nodup := by
    rw [x.entries_keys]
    exact lowerFields_names x.inlined.identifiers x.inlined.lowered
  refine ⟨fun f hf hne => ?_, fun f hf hname q hq => ?_⟩
  · refine find_of_nodup hnodup (List.mem_flatMap.mpr ⟨f, hf, ?_⟩)
    rw [if_neg hne]
    exact List.mem_singleton.mpr rfl
  · refine find_of_nodup hnodup (List.mem_flatMap.mpr ⟨f, hf, ?_⟩)
    rw [if_pos hname]
    exact List.mem_map.mpr ⟨q, hq, rfl⟩

end Flattened

/-! ## The columns of both -/

section

variable {env : Env} {spec : TypePath → RowSpec} {rows rows' : List Value}

/-- The column of a flattened field. -/
def flattenRef (name : String) (nested : NestedLeaf) (g : Value → Option Value) : ColumnRef :=
  ⟨name, .flatten, .nested nested, .read g, false⟩

/-- The columns of the rows `g` reads. -/
theorem ColumnRef.row_after (g : Value → Option Value) (r : ColumnRef) :
    (r.after (.read g)).row env.traits spec = (r.row env.traits spec).under (.read g) := by
  have hdepth : ((Walk.read g).comp r.walk).depth = r.walk.depth := Nat.zero_add _
  show (leafRow env.traits spec r.route r.carried r.policy r.name ((Walk.read g).comp r.walk).depth).under
    ((Walk.read g).comp r.walk) = _
  rw [hdepth]
  exact RowSpec.under_comp _ _ _

variable {name : String} {nested : NestedLeaf} {g : Value → Option Value} {refs : List ColumnRef}

/-- A flattened struct has the columns of the struct, -/
theorem flattenRef_columns (hspec : spec nested.ty = structRow env.traits spec refs) :
    ((flattenRef name nested g).row env.traits spec).columns =
      (RowSpec.concat ((refs.map (ColumnRef.after (.read g))).map (ColumnRef.row env.traits spec))).columns := by
  have hnames : ((spec nested.ty).columns.map fun c => { c with name := composeNestedName .flatten name c.name }) =
      (spec nested.ty).columns := List.map_id _
  show ((spec nested.ty).columns.map fun c => { c with name := composeNestedName .flatten name c.name }).map
    (ColumnSpec.under (.read g)) = _
  rw [hnames, hspec]
  show (RowSpec.concat (refs.map (ColumnRef.row env.traits spec))).columns.map _ = _
  rw [RowSpec.concat_columns, RowSpec.concat_columns, List.flatMap_map, List.flatMap_map, List.flatMap_map, List.map_flatMap]
  refine List.flatMap_congr fun r _ => ?_
  show _ = ((r.after (.read g)).row env.traits spec).columns
  rw [ColumnRef.row_after]
  rfl

theorem flattenRef_names (hspec : spec nested.ty = structRow env.traits spec refs) :
    ((flattenRef name nested g).row env.traits spec).columns.map ColumnSpec.name =
      (structRow env.traits spec refs).columns.map ColumnSpec.name := by
  rw [← hspec]
  show (((spec nested.ty).columns.map _).map _).map ColumnSpec.name = _
  rw [List.map_map, List.map_map]
  rfl

/-- Its names are the struct's, which have to be distinct, -/
theorem flattenRef_valid (hspec : spec nested.ty = structRow env.traits spec refs)
    (hnodup : (((flattenRef name nested g).row env.traits spec).columns.map ColumnSpec.name).Nodup) :
    ((flattenRef name nested g).row env.traits spec).valid ↔
      ∀ r ∈ refs, ((r.after (.read g)).row env.traits spec).valid := by
  rw [flattenRef_names hspec] at hnodup
  show (spec nested.ty).valid ↔ _
  rw [hspec, structRow_valid, and_iff_left hnodup]
  refine forall₂_congr fun r _ => ?_
  rw [ColumnRef.row_after]
  rfl

/-- and it converts when all of them do. -/
theorem flattenRef_accepts (hspec : spec nested.ty = structRow env.traits spec refs) :
    ((flattenRef name nested g).row env.traits spec).Accepts rows ↔
      ∀ r ∈ refs, ((r.after (.read g)).row env.traits spec).Accepts rows := by
  show ((nestedRow false .flatten name (spec nested.ty)).under (.read g)).Accepts rows ↔ _
  rw [RowSpec.accepts_under]
  show (nestedRow false .flatten name (spec nested.ty)).Accepts (rows.map fun row => (g row).getD .none) ↔ _
  have hfit : PositionsFit false (rows.map fun row => (g row).getD .none) := nofun
  rw [nestedRow_accepts, and_iff_right hfit, hspec, structRow_accepts]
  refine forall₂_congr fun r _ => ?_
  rw [ColumnRef.row_after, RowSpec.accepts_under]
  rfl

theorem flattenRef_typed (hspec : spec nested.ty = structRow env.traits spec refs) {row : Value}
    (h : ((flattenRef name nested g).row env.traits spec).typed row) :
    ∀ r ∈ refs, ((r.after (.read g)).row env.traits spec).typed row := by
  obtain ⟨v, hv, htyped⟩ := h
  have htyped : (spec nested.ty).typed v := htyped
  rw [hspec] at htyped
  intro r hr
  rw [ColumnRef.row_after]
  exact ⟨v, hv, structRow_typed.mp htyped r hr⟩

end

/-! ## Two structs -/

section

variable {rows rows' : List Value}

/-- Fields read from the second rows by name as from the first by `w`. -/
theorem byName_alike (w : FieldIR → Walk) : ∀ {fields : List FieldIR}, (∀ f ∈ fields, f.Projectable) →
    (∀ f ∈ fields, (w f).Alike f.byName.walk rows rows') →
      List.Forall₂ (ColumnRef.Alike rows rows') (fields.flatMap fun f => f.refsFrom (w f))
        ((fields.map FieldIR.byName).flatMap FieldIR.refs)
  | [], _, _ => .nil
  | f :: fields, hproj, hread => by
    obtain ⟨hf, hproj⟩ := List.forall_mem_cons.mp hproj
    obtain ⟨hw, hread⟩ := List.forall_mem_cons.mp hread
    exact List.rel_append (FieldIR.refsFrom_alike hf hw) (byName_alike w hproj hread)

namespace Flattened

variable {x : Flattened} {before after : List FieldIR} {field : FieldIR}

theorem Lowered.host_refs (h : x.Lowered before field after) : x.host.refs = before.flatMap FieldIR.refs ++
    (flattenRef (columnNameForIdent x.name) x.nested field.root.value? :: after.flatMap FieldIR.refs) := by
  have hfield : field.refs = [flattenRef (columnNameForIdent x.name) x.nested field.root.value?] := by
    have hbyName := h.field
    obtain ⟨name, fieldIndex, leafSpec, shape, depth, policy⟩ := field
    obtain ⟨rfl, -, rfl, rfl, rfl, rfl⟩ := FieldIR.mk.inj hbyName
    rw [flattenRef, ← Walk.comp_bare (.read _)]
    cases x.nested <;> rfl
  rw [DerivedStruct.refs, h.host, List.flatMap_append, List.flatMap_cons, hfield]
  rfl

/-- The columns of both structs lead to the same leaves, those of `P` through the flattened field. -/
theorem Lowered.refs_alike (h : x.Lowered before field after) (hrows : List.Forall₂ x.Inlines rows rows') :
    List.Forall₂ (ColumnRef.Alike rows rows') (before.flatMap FieldIR.refs ++
      (x.inner.refs.map (ColumnRef.after (.read field.root.value?)) ++ after.flatMap FieldIR.refs)) x.inlined.refs := by
  have hproj := lowerFields_projectable x.host.lowered
  rw [h.host] at hproj
  obtain ⟨hbefore, hproj⟩ := List.forall_mem_append.mp hproj
  have hafter := (List.forall_mem_cons.mp hproj).2
  have hinner := lowerFields_projectable x.inner.lowered
  have hname : field.name = x.name := congrArg FieldIR.name h.field
  have hothers : ∀ f ∈ before ++ after, f.walk.Alike f.byName.walk rows rows' := by
    intro f hf
    have hmem : f ∈ x.host.fields := by
      rw [h.host]
      rcases List.mem_append.mp hf with hf | hf
      · exact List.mem_append_left _ hf
      · exact List.mem_append_right _ (List.mem_cons_of_mem _ hf)
    exact Walk.Alike.read _ (hrows.imp fun row row' hrow =>
      congrArg (Option.bind · _) (hrow.others f hmem (h.name_ne f hf)).symm)
  have hfields : ∀ q ∈ x.inner.fields, ((Walk.read field.root.value?).comp q.walk).Alike q.byName.walk rows rows' := by
    intro q hq
    have hmem : field ∈ x.host.fields := by
      rw [h.host]
      exact List.mem_append_right _ List.mem_cons_self
    rw [FieldIR.walk, ← Walk.comp_assoc, Walk.read_comp_read _ _ rfl]
    refine Walk.Alike.read _ (hrows.imp fun row row' hrow => ?_)
    show _ = (q.byName.root.raw? row').bind _
    rw [hrow.inner field hmem hname q hq, Option.bind_assoc]
    rfl
  have hrefs : x.inner.refs.map (ColumnRef.after (.read field.root.value?)) =
      x.inner.fields.flatMap fun q => q.refsFrom ((Walk.read field.root.value?).comp q.walk) := by
    rw [DerivedStruct.refs, List.map_flatMap]
    exact List.flatMap_congr fun q hq => (FieldIR.refsFrom_comp (hinner q hq) _ _).symm
  show List.Forall₂ _ _ (x.inlined.fields.flatMap FieldIR.refs)
  rw [h.inlined_fields, List.flatMap_append, List.flatMap_append, hrefs]
  exact List.rel_append
    (byName_alike FieldIR.walk hbefore fun f hf => hothers f (List.mem_append_left _ hf))
    (List.rel_append (byName_alike _ hinner hfields)
      (byName_alike FieldIR.walk hafter fun f hf => hothers f (List.mem_append_right _ hf)))

variable {env : Env} {spec : TypePath → RowSpec} {typeName : String}

/-- The row types of the two structs agree. -/
theorem agrees (x : Flattened) (henv : env.Declares spec x.nested.ty x.inner typeName)
    (ht : ∀ row ∈ rows, (structRow env.traits spec x.host.refs).typed row) (hrows : List.Forall₂ x.Inlines rows rows') :
    (structRow env.traits spec x.host.refs).Agrees (structRow env.traits spec x.inlined.refs) rows rows' := by
  obtain ⟨before, field, after, h⟩ := x.exists_lowered
  have hspec := henv.spec
  have htyped : ∀ r ∈ x.host.refs, ∀ row ∈ rows, (r.row env.traits spec).typed row :=
    fun r hr row hrow => structRow_typed.mp (ht row hrow) r hr
  rw [h.host_refs] at htyped
  obtain ⟨hbefore, htyped⟩ := List.forall_mem_append.mp htyped
  obtain ⟨hflat, hafter⟩ := List.forall_mem_cons.mp htyped
  have hconcat := @ColumnRef.Alike.concat env.traits spec _ _ _ _ (h.refs_alike hrows)
    (List.forall_mem_append.mpr ⟨hbefore, List.forall_mem_append.mpr ⟨List.forall_mem_map.mpr fun r hr row hrow =>
      flattenRef_typed hspec (hflat row hrow) r hr, hafter⟩⟩)
  have hcolumns : (structRow env.traits spec x.host.refs).columns = (RowSpec.concat ((before.flatMap FieldIR.refs ++
      (x.inner.refs.map (ColumnRef.after (.read field.root.value?)) ++ after.flatMap FieldIR.refs)).map
        (ColumnRef.row env.traits spec))).columns := by
    show (RowSpec.concat (x.host.refs.map (ColumnRef.row env.traits spec))).columns = _
    rw [h.host_refs, RowSpec.concat_columns, RowSpec.concat_columns, List.map_append, List.map_append, List.map_append,
      List.map_cons, List.flatMap_append, List.flatMap_append, List.flatMap_append, List.flatMap_cons,
      flattenRef_columns hspec, RowSpec.concat_columns]
  have hnames : (structRow env.traits spec x.host.refs).columns.map ColumnSpec.name =
      (structRow env.traits spec x.inlined.refs).columns.map ColumnSpec.name := by
    have hentries := congrArg (List.map Prod.fst) hconcat.entries
    rw [entries_names, entries_names, ← hcolumns] at hentries
    exact hentries
  have hvalids := hconcat.valid
  have haccepts := hconcat.accepts
  rw [RowSpec.concat_valid, RowSpec.concat_valid, List.forall_mem_map, List.forall_mem_map] at hvalids
  rw [RowSpec.concat_accepts, RowSpec.concat_accepts, List.forall_mem_map, List.forall_mem_map] at haccepts
  refine ⟨?_, fun row' hrow' => ?_, ?_, ?_⟩
  · have hcontents := hconcat.contents
    rw [RowSpec.contents, ← hcolumns] at hcontents
    exact hcontents
  · exact hconcat.typed row' hrow'
  · -- the columns of `P` have names apart, being among those of the struct
    rw [structRow_valid, structRow_valid, ← hnames, ← hvalids]
    refine and_congr_left fun hnodup => ?_
    have hflatNames : (((flattenRef (columnNameForIdent x.name) x.nested field.root.value?).row env.traits
        spec).columns.map ColumnSpec.name).Nodup := by
      have hall : ((RowSpec.concat (x.host.refs.map (ColumnRef.row env.traits spec))).columns.map ColumnSpec.name).Nodup := hnodup
      rw [h.host_refs, RowSpec.concat_columns, List.map_append, List.map_cons, List.flatMap_append, List.flatMap_cons,
        List.map_append, List.map_append] at hall
      exact hall.of_append_right.of_append_left
    rw [h.host_refs]
    simp only [List.forall_mem_append, List.forall_mem_cons, List.forall_mem_map, flattenRef_valid hspec hflatNames]
  · rw [structRow_accepts, structRow_accepts, ← haccepts, h.host_refs]
    simp only [List.forall_mem_append, List.forall_mem_cons, List.forall_mem_map, flattenRef_accepts hspec]

end Flattened

end

/-- With the fields of `P` in the place of the flattened field the struct is accepted, and every
    row has its fields inlined in another; on such rows both structs have the same schema and the
    same frames, or both fail. -/
theorem flattened_inlined (x : Flattened) :
    (∃ ir, parseToIr ⟨x.host.input.ident, .named x.fields⟩ = .ok ir) ∧ (∀ row, x.Inlines row (x.inlineRow row)) ∧
    ∀ (env : Env) (spec : TypePath → RowSpec) (typeName name : String),
      env.Declares spec x.nested.ty x.inner typeName → ∀ rows rows' : List Value,
        (∀ row ∈ rows, (structRow env.traits spec x.host.refs).typed row) → List.Forall₂ x.Inlines rows rows' →
          (generateImpl env x.host.ir name).Agree (generateImpl env x.inlined.ir name) rows rows' := by
  refine ⟨⟨_, x.inlined.parseToIr_eq⟩, x.inlines_inlineRow, fun env spec typeName name henv rows rows' ht hrows => ?_⟩
  have hhost : Models (generateImpl env x.host.ir name) (structRow env.traits spec x.host.refs) :=
    generateImpl_models (x.host.refersTo henv.models)
  have hinlined : Models (generateImpl env x.inlined.ir name) (structRow env.traits spec x.inlined.refs) :=
    generateImpl_models (x.inlined.refersTo henv.models)
  exact hhost.agree_all hinlined (x.agrees henv ht hrows) hrows.length_eq ht

/-- `struct Pin { on: bool, #[df_derive(flatten)] at: Box<Point> }` -/
def pin : Flattened where
  host := ⟨⟨"Pin", .named [("on", ⟨.mk [] (.leaf .bool), .include .default⟩),
      ("at", ⟨(NestedLeaf.struct "Point").pointed 1, .include (.flatten none)⟩)]⟩,
    ⟨by decide, by decide⟩, [⟨"on", none, .bool, .leaf .bare, 0, .field⟩, ⟨"at", none, .struct "Point", .leaf .bare, 1, .flatten⟩],
    rfl⟩
  inner := pointStruct
  before := [("on", ⟨.mk [] (.leaf .bool), .include .default⟩)]
  after := []
  name := "at"
  depth := 1
  nested := .struct "Point"
  host_fields := rfl
  identifiers := ⟨by decide, by decide⟩

def pinEnv : Env := ⟨brokenTraits, fun _ => pointTree.impl brokenTraits⟩

theorem pinEnv_declares : pinEnv.Declares (fun _ => pointTree.spec brokenTraits) "Point" pointStruct "Point" where
  models _ := pointTree.models brokenTraits
  impl := rfl
  spec := rfl

def pinRow : Value := .struct [("on", .scalar (.bool true)), ("at", .ptr (pointRow 3))]

/-- Both structs have the columns `on` and `x`. -/
theorem flattened_inlined_pin : ∃ df df', (generateImpl pinEnv pin.host.ir "Pin").columnarFromRefs [pinRow] = .ok df ∧
    (generateImpl pinEnv pin.inlined.ir "Pin").columnarFromRefs [pin.inlineRow pinRow] = .ok df' ∧ df.Same df' ∧
    df.cells = [[.val (.bool true)], [.val (.int 3)]] := by
  have ht : ∀ row ∈ [pinRow], (structRow brokenTraits (fun _ => pointTree.spec brokenTraits) pin.host.refs).typed row := by
    intro row hrow
    rw [List.mem_singleton.mp hrow]
    exact ⟨⟨_, rfl, true, rfl⟩, ⟨_, rfl, pointRow_typed brokenTraits 3⟩, trivial⟩
  obtain ⟨df, hdf, hcells⟩ := Run.ok_of_map (r := (generateImpl pinEnv pin.host.ir "Pin").columnarFromRefs [pinRow])
    (f := DataFrame.cells) (b := [[.val (.bool true)], [.val (.int 3)]]) rfl
  obtain ⟨-, hinlines, hagree⟩ := flattened_inlined pin
  rcases (hagree pinEnv _ "Point" "Pin" pinEnv_declares [pinRow] [pin.inlineRow pinRow] ht
    (.cons (hinlines pinRow) .nil)).columnarFromRefs with ⟨a, b, ha, hb, hsame⟩ | ⟨e, _, he, -⟩
  · cases hdf.symm.trans ha
    exact ⟨df, b, hdf, hb, hsame, hcells⟩
  · cases hdf.symm.trans he

end DfDerive
