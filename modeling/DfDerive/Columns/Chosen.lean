/-
  DfDerive.Columns.Chosen — structs made of some fields of another.

  Fields may be left out, marked `skip` or put in another order. What lowering finds in a field
  depends on the field alone, so the struct is accepted when the other one is
  (`DerivedStruct.chosen`), and its schema and its frames are those of its fields, in its order,
  as they stand in the schema and the frames of the other (`fields_chosen`).
-/

import DfDerive.Columns.Inlined
import Mathlib.Data.List.Pairwise

namespace DfDerive

open Lib

/-! ## Choosing fields -/

/-- Every field is skipped, or is a field of the second struct: the one of its name, or the one
    at its position. -/
def Fields.ChosenFrom : Fields → Fields → Prop
  | .named chosen, .named fields => ∀ f ∈ chosen, f.2.disposition = .skip ∨ f ∈ fields
  | .unnamed chosen, .unnamed fields => ∀ (i : Nat) (f : FieldDecl), chosen[i]? = some f →
      f.disposition = .skip ∨ fields[i]? = some f
  | .unit, _ => True
  | _, _ => False

theorem lowerField_skip {field : FieldDecl} (h : field.disposition = .skip) (name : String) (fieldIndex : Option Nat) :
    lowerField field name fieldIndex = .ok none := by
  obtain ⟨ty, disposition⟩ := field
  obtain rfl : disposition = .skip := h
  rfl

/-- Each field is lowered by itself. -/
theorem lowerNamedFields_mem : ∀ {fields : List (String × FieldDecl)} {lowered : List FieldIR},
    lowerNamedFields fields = .ok lowered →
      ∀ f ∈ fields, ∃ r, lowerField f.2 f.1 none = .ok r ∧ ∀ ir ∈ r.toList, ir ∈ lowered
  | [], _, _, _, hf => by cases hf
  | (name, field) :: fields, _, h, f, hf => by
    obtain ⟨first, hfirst, h⟩ := bind_eq_ok.mp h
    obtain ⟨rest, hrest, hok⟩ := bind_eq_ok.mp h
    cases hok
    rcases List.mem_cons.mp hf with rfl | hf
    · exact ⟨first, hfirst, fun ir hir => List.mem_append_left _ hir⟩
    · obtain ⟨r, hr, hmem⟩ := lowerNamedFields_mem hrest f hf
      exact ⟨r, hr, fun ir hir => List.mem_append_right _ (hmem ir hir)⟩

theorem lowerUnnamedFields_mem : ∀ {fields : List FieldDecl} {index : Nat} {lowered : List FieldIR},
    lowerUnnamedFields index fields = .ok lowered → ∀ i f, fields[i]? = some f →
      ∃ r, lowerField f s!"field_{index + i}" (some (index + i)) = .ok r ∧ ∀ ir ∈ r.toList, ir ∈ lowered
  | [], _, _, _, _, _, hf => by cases hf
  | field :: fields, index, _, h, i, f, hf => by
    obtain ⟨first, hfirst, h⟩ := bind_eq_ok.mp h
    obtain ⟨rest, hrest, hok⟩ := bind_eq_ok.mp h
    cases hok
    cases i with
    | zero =>
      cases hf
      exact ⟨first, hfirst, fun ir hir => List.mem_append_left _ hir⟩
    | succ i =>
      obtain ⟨r, hr, hmem⟩ := lowerUnnamedFields_mem hrest i f hf
      rw [Nat.add_assoc, Nat.add_comm 1 i] at hr
      exact ⟨r, hr, fun ir hir => List.mem_append_right _ (hmem ir hir)⟩

section

variable {lowered : List FieldIR}

theorem lowerNamedFields_of : ∀ {fields : List (String × FieldDecl)},
    (∀ f ∈ fields, ∃ r, lowerField f.2 f.1 none = .ok r ∧ ∀ ir ∈ r.toList, ir ∈ lowered) →
      ∃ found, lowerNamedFields fields = .ok found ∧ ∀ ir ∈ found, ir ∈ lowered
  | [], _ => ⟨[], rfl, nofun⟩
  | (name, field) :: fields, h => by
    obtain ⟨⟨r, hr, hmem⟩, h⟩ := List.forall_mem_cons.mp h
    obtain ⟨found, hfound, hin⟩ := lowerNamedFields_of h
    exact ⟨r.toList ++ found, bind_eq_ok.mpr ⟨r, hr, bind_eq_ok.mpr ⟨found, hfound, rfl⟩⟩,
      List.forall_mem_append.mpr ⟨hmem, hin⟩⟩

theorem lowerUnnamedFields_of : ∀ {fields : List FieldDecl} {index : Nat},
    (∀ i f, fields[i]? = some f →
      ∃ r, lowerField f s!"field_{index + i}" (some (index + i)) = .ok r ∧ ∀ ir ∈ r.toList, ir ∈ lowered) →
        ∃ found, lowerUnnamedFields index fields = .ok found ∧ ∀ ir ∈ found, ir ∈ lowered
  | [], _, _ => ⟨[], rfl, nofun⟩
  | field :: fields, index, h => by
    obtain ⟨r, hr, hmem⟩ := h 0 field rfl
    have hrest : ∀ i f, fields[i]? = some f →
        ∃ r, lowerField f s!"field_{index + 1 + i}" (some (index + 1 + i)) = .ok r ∧
          ∀ ir ∈ r.toList, ir ∈ lowered := by
      intro i f hf
      rw [Nat.add_assoc, Nat.add_comm 1 i]
      exact h (i + 1) f hf
    obtain ⟨found, hfound, hin⟩ := lowerUnnamedFields_of hrest
    exact ⟨r.toList ++ found, bind_eq_ok.mpr ⟨r, hr, bind_eq_ok.mpr ⟨found, hfound, rfl⟩⟩,
      List.forall_mem_append.mpr ⟨hmem, hin⟩⟩

/-- The chosen fields are accepted, and are found to be what they were. -/
theorem lowerFields_chosen {chosen fields : Fields} (h : lowerFields fields = .ok lowered) (hc : chosen.ChosenFrom fields) :
    ∃ found, lowerFields chosen = .ok found ∧ ∀ ir ∈ found, ir ∈ lowered := by
  cases chosen with
  | unit => exact ⟨[], rfl, nofun⟩
  | named chosen =>
    cases fields with
    | named fields =>
      refine lowerNamedFields_of fun f hf => ?_
      rcases hc f hf with hskip | hmem
      · exact ⟨none, lowerField_skip hskip _ _, nofun⟩
      · exact lowerNamedFields_mem h f hmem
    | unnamed fields => exact hc.elim
    | unit => exact hc.elim
  | unnamed chosen =>
    cases fields with
    | unnamed fields =>
      refine @lowerUnnamedFields_of lowered chosen 0 fun i f hf => ?_
      rcases hc i f hf with hskip | hmem
      · exact ⟨none, lowerField_skip hskip _ _, nofun⟩
      · exact lowerUnnamedFields_mem h i f hmem
    | named fields => exact hc.elim
    | unit => exact hc.elim

end

/-- The struct of the chosen fields. -/
theorem DerivedStruct.chosen (s : DerivedStruct) {chosen : Fields} (hid : chosen.Identifiers)
    (h : chosen.ChosenFrom s.input.fields) :
    ∃ t : DerivedStruct, t.input = ⟨s.input.ident, chosen⟩ ∧ ∀ f ∈ t.fields, f ∈ s.fields := by
  obtain ⟨found, hfound, hin⟩ := lowerFields_chosen s.lowered h
  exact ⟨⟨⟨s.input.ident, chosen⟩, hid, found, hfound⟩, rfl, hin⟩

/-! ## The columns of a field -/

/-- The columns that a field gives any struct it is in. -/
def FieldIR.columns (tr : Traits) (spec : TypePath → RowSpec) (field : FieldIR) : List ColumnSpec :=
  field.refs.flatMap fun r => (r.row tr spec).columns

section

variable {tr : Traits} {spec : TypePath → RowSpec}

theorem structRow_columns (s : DerivedStruct) :
    (structRow tr spec s.refs).columns = s.fields.flatMap (FieldIR.columns tr spec) := by
  show (RowSpec.concat (s.refs.map (ColumnRef.row tr spec))).columns = _
  rw [RowSpec.concat_columns, List.flatMap_map, DerivedStruct.refs, List.flatMap_assoc]
  rfl

variable {s t : DerivedStruct}

theorem refs_chosen (h : ∀ f ∈ t.fields, f ∈ s.fields) : ∀ r ∈ t.refs, r ∈ s.refs := by
  intro r hr
  obtain ⟨f, hf, hr⟩ := List.mem_flatMap.mp hr
  exact List.mem_flatMap.mpr ⟨f, h f hf, hr⟩

/-- Fewer fields in any order have no name twice either. -/
theorem names_chosen (h : ∀ f ∈ t.fields, f ∈ s.fields)
    (hnodup : ((structRow tr spec s.refs).columns.map ColumnSpec.name).Nodup) :
    ((structRow tr spec t.refs).columns.map ColumnSpec.name).Nodup := by
  rw [structRow_columns, List.map_flatMap, List.nodup_flatMap] at hnodup ⊢
  obtain ⟨heach, hdisjoint⟩ := hnodup
  have hsymm : Std.Symm (Function.onFun List.Disjoint fun f => (FieldIR.columns tr spec f).map ColumnSpec.name) :=
    ⟨fun _ _ h _ hf hg => h hg hf⟩
  have hfields : t.fields.Nodup := List.Nodup.of_map _ (lowerFields_names t.identifiers t.lowered)
  refine ⟨fun f hf => heach f (h f hf), ?_⟩
  exact hfields.imp_of_mem fun {f g} hf hg hne => hdisjoint.forall (h f hf) (h g hg) hne

end

/-! ## Rows -/

/-- The second row has the values of the fields of the first. -/
def DerivedStruct.Shares (t : DerivedStruct) (row row' : Value) : Prop := ∀ f ∈ t.fields, f.root.raw? row' = f.root.raw? row

section

variable {env : Env} {spec : TypePath → RowSpec} {rows rows' : List Value}

/-- A frame of the one batch is a frame of the other. -/
theorem FrameOf.reread {row : RowSpec} {df : DataFrame} (h : FrameOf row.columns rows' df) (hagrees : row.Agrees row rows rows')
    (hlen : rows.length = rows'.length) : FrameOf row.columns rows df where
  columns := by
    have hcells : ∀ c ∈ row.columns, rows.map c.cell = rows'.map c.cell := List.map_inj_left.mp hagrees.cells
    refine ((List.forall₂_and_left _ _).mpr ⟨hcells, h.columns⟩).imp fun c s hs => ?_
    exact ⟨hs.2.name, hs.2.dtype, hs.2.cells.trans hs.1.symm⟩
  height := h.height.trans hlen.symm

/-- Columns read nothing but their fields. -/
theorem DerivedStruct.shares_agrees (t : DerivedStruct) (hrows : List.Forall₂ t.Shares rows rows')
    (ht : ∀ row ∈ rows, (structRow env.traits spec t.refs).typed row) :
    (structRow env.traits spec t.refs).Agrees (structRow env.traits spec t.refs) rows rows' := by
  have hrefs : ∀ fields : List FieldIR, (∀ f ∈ fields, f ∈ t.fields) →
      List.Forall₂ (ColumnRef.Alike rows rows') (fields.flatMap FieldIR.refs) (fields.flatMap FieldIR.refs) := by
    intro fields
    induction fields with
    | nil => exact fun _ => .nil
    | cons f fields ih =>
      intro hmem
      obtain ⟨hf, hmem⟩ := List.forall_mem_cons.mp hmem
      have hwalk : f.walk.Alike f.walk rows rows' :=
        Walk.Alike.read _ (hrows.imp fun row row' hrow => congrArg (Option.bind · _) (hrow f hf).symm)
      exact List.rel_append (FieldIR.refsFrom_alike (lowerFields_projectable t.lowered f hf) hwalk) (ih hmem)
  exact (ColumnRef.Alike.concat (hrefs t.fields fun _ hf => hf)
    fun r hr row hrow => structRow_typed.mp (ht row hrow) r hr).structRow

end

/-- Whatever fields of an accepted struct are taken, in any order, skipping or leaving out the
    others, the struct of them is accepted. Where the whole struct has a schema so has this
    one, and where the whole struct converts a batch this one converts the rows that have its
    fields: to the columns of its fields, in its order, as they stand in the whole frame. -/
theorem fields_chosen (s : DerivedStruct) (chosen : Fields) (hid : chosen.Identifiers)
    (h : chosen.ChosenFrom s.input.fields) :
    ∃ t : DerivedStruct, t.input = ⟨s.input.ident, chosen⟩ ∧ (∀ f ∈ t.fields, f ∈ s.fields) ∧
      ∀ (env : Env) (spec : TypePath → RowSpec) (name : String), (∀ ty, Models (env.impl ty) (spec ty)) →
        (∀ entries, (generateImpl env s.ir name).schema = .ok entries →
          entries = (s.fields.flatMap (FieldIR.columns env.traits spec)).map ColumnSpec.entry ∧
            (generateImpl env t.ir name).schema =
              .ok ((t.fields.flatMap (FieldIR.columns env.traits spec)).map ColumnSpec.entry)) ∧
        ∀ rows rows' df, (∀ row ∈ rows, (structRow env.traits spec s.refs).typed row) → List.Forall₂ t.Shares rows rows' →
          (generateImpl env s.ir name).columnarFromRefs rows = .ok df →
            FrameOf (s.fields.flatMap (FieldIR.columns env.traits spec)) rows df ∧
              ∃ df', (generateImpl env t.ir name).columnarFromRefs rows' = .ok df' ∧
                FrameOf (t.fields.flatMap (FieldIR.columns env.traits spec)) rows df' := by
  obtain ⟨t, hinput, hmem⟩ := s.chosen hid h
  refine ⟨t, hinput, hmem, fun env spec name hm => ?_⟩
  have hwhole : Models (generateImpl env s.ir name) (structRow env.traits spec s.refs) := generateImpl_models (s.refersTo hm)
  have hpart : Models (generateImpl env t.ir name) (structRow env.traits spec t.refs) := generateImpl_models (t.refersTo hm)
  have hvalid : (structRow env.traits spec s.refs).valid → (structRow env.traits spec t.refs).valid := by
    rw [structRow_valid, structRow_valid]
    exact fun ⟨heach, hnodup⟩ => ⟨fun r hr => heach r (refs_chosen hmem r hr), names_chosen hmem hnodup⟩
  constructor
  · intro entries hentries
    obtain ⟨hv, rfl⟩ := hwhole.schema.of_eq_ok hentries
    obtain ⟨entries', hok, rfl⟩ := hpart.schema.1 (hvalid hv)
    rw [hok, RowSpec.entries, RowSpec.entries, structRow_columns, structRow_columns]
    exact ⟨rfl, rfl⟩
  · intro rows rows' df ht hrows hdf
    obtain ⟨⟨hv, haccepts⟩, hframe⟩ := (hwhole.fromRefs rows ht).of_eq_ok hdf
    rw [structRow_columns] at hframe
    have htyped : ∀ row ∈ rows, (structRow env.traits spec t.refs).typed row := fun row hrow =>
      structRow_typed.mpr fun r hr => structRow_typed.mp (ht row hrow) r (refs_chosen hmem r hr)
    have haccepts' : (structRow env.traits spec t.refs).Accepts rows :=
      (structRow_accepts rows).mpr fun r hr => (structRow_accepts rows).mp haccepts r (refs_chosen hmem r hr)
    have hagrees := t.shares_agrees hrows htyped
    obtain ⟨df', hok, hframe'⟩ := (hpart.fromRefs rows' hagrees.typed).1 ⟨hvalid hv, hagrees.accepts.mp haccepts'⟩
    refine ⟨hframe, df', hok, ?_⟩
    rw [← structRow_columns]
    exact hframe'.reread hagrees hrows.length_eq

/-- `at` alone: `struct Pin { #[df_derive(flatten)] at: Box<Point>, #[df_derive(skip)] on: bool }` -/
def pinAt : Fields := .named [("at", ⟨(NestedLeaf.struct "Point").pointed 1, .include (.flatten none)⟩),
  ("on", ⟨.mk [] (.leaf .bool), .skip⟩)]

theorem fields_chosen_pin : ∃ t : DerivedStruct, t.input = ⟨"Pin", pinAt⟩ ∧
    ∃ df, (generateImpl pinEnv t.ir "Pin").columnarFromRefs [pinRow] = .ok df ∧ df.cells = [[.val (.int 3)]] := by
  have hid : pinAt.Identifiers := ⟨by decide, by decide⟩
  have hchosen : pinAt.ChosenFrom pin.host.input.fields := by
    intro f hf
    rcases List.mem_pair.mp hf with rfl | rfl
    · exact Or.inr (List.mem_cons_of_mem _ (List.mem_singleton_self _))
    · exact Or.inl rfl
  have ht : ∀ row ∈ [pinRow], (structRow brokenTraits (fun _ => pointTree.spec brokenTraits) pin.host.refs).typed row := by
    intro row hrow
    rw [List.mem_singleton.mp hrow]
    exact ⟨⟨_, rfl, true, rfl⟩, ⟨_, rfl, pointRow_typed brokenTraits 3⟩, trivial⟩
  obtain ⟨df, hdf, -⟩ := Run.ok_of_map (r := (generateImpl pinEnv pin.host.ir "Pin").columnarFromRefs [pinRow])
    (f := DataFrame.cells) (b := [[.val (.bool true)], [.val (.int 3)]]) rfl
  obtain ⟨t, hinput, -, hall⟩ := fields_chosen pin.host pinAt hid hchosen
  obtain ⟨-, hframes⟩ := hall pinEnv (fun _ => pointTree.spec brokenTraits) "Pin" fun _ => pointTree.models brokenTraits
  obtain ⟨-, df', hdf', hframe⟩ := hframes [pinRow] [pinRow] df ht (.cons (fun _ _ => rfl) .nil) hdf
  refine ⟨t, hinput, df', hdf', ?_⟩
  have hfields : t.fields = [⟨"at", none, .struct "Point", .leaf .bare, 1, .flatten⟩] := by
    have hlowered := t.lowered
    rw [hinput] at hlowered
    exact (Except.ok.inj hlowered).symm
  rw [hframe.cells, hfields]
  rfl

end DfDerive
