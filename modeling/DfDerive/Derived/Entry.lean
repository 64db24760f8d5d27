/-
  DfDerive.Derived.Entry — the entry point of the derive (`lib.rs`).

  The container attributes are read first, then the kind of the item, then the fields in the
  order they are declared; the first error ends the expansion and is its output
  (`toDataframeDerive_error`). What is accepted means a struct of declared fields, the
  expansion is the expansion of that struct, and the implementation it generates follows
  the struct's reference (`derived_implementation`).
-/

import DfDerive.Codegen.Config
import DfDerive.Derived.Tree
import DfDerive.Lower.WrittenProofs

namespace DfDerive

open Lib FieldType

/-- `to_dataframe_derive` up to code generation. -/
def toDataframeDerive (crates : Crates) (text : FieldType → TypePath) (input : WrittenInput) :
    Except InputError (MacroConfig × StructIR) := do
  let config ← (buildMacroConfig crates input.attrs).mapError .container
  let ir ← parseWrittenToIr text input
  .ok (config, ir)

/-! ## What fields declare -/

section
variable (text : FieldType → TypePath) (structName : String) (genericParams : List String)

/-- Field by field, under the same names. -/
inductive FieldsMean : WrittenFields → Fields → Prop where
  | named {fields : List (String × WrittenField)} {decls : List (String × FieldDecl)}
      (each : List.Forall₂ (fun field decl => field.1 = decl.1 ∧ FieldMeans text structName genericParams field.2 decl.2)
        fields decls) : FieldsMean (.named fields) (.named decls)
  | unnamed {fields : List WrittenField} {decls : List FieldDecl}
      (each : List.Forall₂ (FieldMeans text structName genericParams) fields decls) :
      FieldsMean (.unnamed fields) (.unnamed decls)
  | unit : FieldsMean .unit .unit

variable {text structName genericParams}

theorem lowerEntries_cons_ok {field : WrittenField} {name : String} {fieldIndex : Option Nat}
    {entries : List (WrittenField × String × Option Nat)} {lowered : List FieldIR} :
    lowerEntries text structName genericParams ((field, name, fieldIndex) :: entries) = .ok lowered ↔
      ∃ d r rest, FieldMeans text structName genericParams field d ∧ lowerField d name fieldIndex = .ok r ∧
        lowerEntries text structName genericParams entries = .ok rest ∧ lowered = r.toList ++ rest := by
  rw [lowerEntries, bind_eq_ok]
  constructor
  · rintro ⟨r, hr, h⟩
    obtain ⟨d, hd, hlower⟩ := lowerWrittenField_ok.mp hr
    obtain ⟨rest, hrest, h⟩ := bind_eq_ok.mp h
    cases h
    exact ⟨d, r, rest, hd, hlower, hrest, rfl⟩
  · rintro ⟨d, r, rest, hd, hlower, hrest, rfl⟩
    exact ⟨r, lowerWrittenField_ok.mpr ⟨d, hd, hlower⟩, bind_eq_ok.mpr ⟨rest, hrest, rfl⟩⟩

theorem lowerEntries_named : ∀ {fields : List (String × WrittenField)} {lowered : List FieldIR},
    lowerEntries text structName genericParams (fields.map fun (name, field) => (field, name, none)) = .ok lowered ↔
      ∃ decls, List.Forall₂ (fun field decl => field.1 = decl.1 ∧ FieldMeans text structName genericParams field.2 decl.2)
        fields decls ∧ lowerNamedFields decls = .ok lowered
  | [], lowered => by
    constructor
    · intro h
      cases h
      exact ⟨[], .nil, rfl⟩
    · rintro ⟨decls, hdecls, h⟩
      cases hdecls
      cases h
      rfl
  | (name, field) :: fields, lowered => by
    rw [List.map_cons, lowerEntries_cons_ok]
    constructor
    · rintro ⟨d, r, rest, hd, hlower, hrest, rfl⟩
      obtain ⟨decls, hdecls, h⟩ := lowerEntries_named.mp hrest
      refine ⟨(name, d) :: decls, .cons ⟨rfl, hd⟩ hdecls, ?_⟩
      rw [lowerNamedFields, hlower, ok_bind, h, ok_bind]
    · rintro ⟨decls, hdecls, h⟩
      cases hdecls with
      | cons hd hdecls =>
        rename_i decl decls
        obtain ⟨hname, hd⟩ := hd
        subst hname
        obtain ⟨r, hlower, h⟩ := bind_eq_ok.mp h
        obtain ⟨rest, hrest, h⟩ := bind_eq_ok.mp h
        cases h
        exact ⟨_, r, rest, hd, hlower, lowerEntries_named.mpr ⟨decls, hdecls, hrest⟩, rfl⟩

theorem lowerEntries_unnamed : ∀ {fields : List WrittenField} {index : Nat} {lowered : List FieldIR},
    lowerEntries text structName genericParams
        ((fields.zipIdx index).map fun (field, index) => (field, s!"field_{index}", some index)) = .ok lowered ↔
      ∃ decls, List.Forall₂ (FieldMeans text structName genericParams) fields decls ∧
        lowerUnnamedFields index decls = .ok lowered
  | [], index, lowered => by
    constructor
    · intro h
      cases h
      exact ⟨[], .nil, rfl⟩
    · rintro ⟨decls, hdecls, h⟩
      cases hdecls
      cases h
      rfl
  | field :: fields, index, lowered => by
    rw [List.zipIdx_cons, List.map_cons, lowerEntries_cons_ok]
    constructor
    · rintro ⟨d, r, rest, hd, hlower, hrest, rfl⟩
      obtain ⟨decls, hdecls, h⟩ := lowerEntries_unnamed.mp hrest
      refine ⟨d :: decls, .cons hd hdecls, ?_⟩
      rw [lowerUnnamedFields, hlower, ok_bind, h, ok_bind]
    · rintro ⟨decls, hdecls, h⟩
      cases hdecls with
      | cons hd hdecls =>
        obtain ⟨r, hlower, h⟩ := bind_eq_ok.mp h
        obtain ⟨rest, hrest, h⟩ := bind_eq_ok.mp h
        cases h
        exact ⟨_, r, rest, hd, hlower, lowerEntries_unnamed.mpr ⟨_, hdecls, hrest⟩, rfl⟩

/-- Lowering fields as written is lowering what they declare. -/
theorem lowerEntries_fields {fields : WrittenFields} {lowered : List FieldIR} :
    lowerEntries text structName genericParams fields.entries = .ok lowered ↔
      ∃ decls, FieldsMean text structName genericParams fields decls ∧ lowerFields decls = .ok lowered := by
  cases fields with
  | named fields =>
    rw [WrittenFields.entries, lowerEntries_named]
    constructor
    · rintro ⟨decls, hdecls, h⟩
      exact ⟨.named decls, .named hdecls, h⟩
    · rintro ⟨_, hdecls, h⟩
      cases hdecls with
      | named each => exact ⟨_, each, h⟩
  | unnamed fields =>
    rw [WrittenFields.entries, lowerEntries_unnamed]
    constructor
    · rintro ⟨decls, hdecls, h⟩
      exact ⟨.unnamed decls, .unnamed hdecls, h⟩
    · rintro ⟨_, hdecls, h⟩
      cases hdecls with
      | unnamed each => exact ⟨_, each, h⟩
  | unit =>
    constructor
    · intro h
      cases h
      exact ⟨.unit, .unit, rfl⟩
    · rintro ⟨_, hdecls, h⟩
      cases hdecls
      cases h
      rfl

end

/-! ## Structs -/

/-- The item as written is a struct, and declares `d`. -/
structure InputMeans (text : FieldType → TypePath) (input : WrittenInput) (d : DeriveInput) : Prop where
  ident : d.ident = input.ident
  fields : ∃ fields, input.data = .struct fields ∧ FieldsMean text input.ident input.genericParams fields d.fields

theorem parseWrittenToIr_ok {text : FieldType → TypePath} {input : WrittenInput} {ir : StructIR} :
    parseWrittenToIr text input = .ok ir ↔ ∃ d, InputMeans text input d ∧ parseToIr d = .ok ir := by
  rw [parseWrittenToIr, bind_eq_ok]
  constructor
  · rintro ⟨fields, hfields, h⟩
    obtain ⟨lowered, hlowered, h⟩ := mapError_bind_ok.mp h
    cases h
    obtain ⟨decls, hdecls, hlower⟩ := lowerEntries_fields.mp hlowered
    have hdata : input.data = .struct fields := by
      cases hdata : input.data with
      | struct written =>
        rw [hdata] at hfields
        cases hfields
        rfl
      | enum =>
        rw [hdata] at hfields
        cases hfields
      | union =>
        rw [hdata] at hfields
        cases hfields
    refine ⟨⟨input.ident, decls⟩, ⟨rfl, fields, hdata, hdecls⟩, ?_⟩
    rw [parseToIr, hlower, ok_bind]
  · rintro ⟨⟨ident, decls⟩, ⟨rfl, fields, hdata, hdecls⟩, h⟩
    obtain ⟨lowered, hlower, h⟩ := bind_eq_ok.mp h
    cases h
    refine ⟨fields, ?_, mapError_bind_ok.mpr ⟨lowered, lowerEntries_fields.mpr ⟨decls, hdecls, hlower⟩, rfl⟩⟩
    rw [hdata, validateStructInput]

theorem toDataframeDerive_ok {crates : Crates} {text : FieldType → TypePath} {input : WrittenInput} {config : MacroConfig}
    {ir : StructIR} :
    toDataframeDerive crates text input = .ok (config, ir) ↔
      buildMacroConfig crates input.attrs = .ok config ∧ ∃ d, InputMeans text input d ∧ parseToIr d = .ok ir := by
  rw [toDataframeDerive, mapError_bind_ok]
  constructor
  · rintro ⟨config', hconfig, h⟩
    obtain ⟨ir', hir, h⟩ := bind_eq_ok.mp h
    cases h
    exact ⟨hconfig, parseWrittenToIr_ok.mp hir⟩
  · rintro ⟨hconfig, hmeans⟩
    exact ⟨config, hconfig, bind_eq_ok.mpr ⟨ir, parseWrittenToIr_ok.mpr hmeans, rfl⟩⟩

/-! ## Errors -/

/-- Why there is no expansion: what comes first of the container, the kind of item and the
    fields in order, everything before it being accepted. -/
inductive InputRefused (crates : Crates) (text : FieldType → TypePath) (input : WrittenInput) : InputError → Prop where
  | container {e : ContainerError} (refused : buildMacroConfig crates input.attrs = .error e) :
      InputRefused crates text input (.container e)
  | enum {config : MacroConfig} (accepted : buildMacroConfig crates input.attrs = .ok config) (isEnum : input.data = .enum) :
      InputRefused crates text input .enumInput
  | union {config : MacroConfig} (accepted : buildMacroConfig crates input.attrs = .ok config) (isUnion : input.data = .union) :
      InputRefused crates text input .unionInput
  | field {config : MacroConfig} {fields : WrittenFields} {before after : List (WrittenField × String × Option Nat)}
      {entry : WrittenField × String × Option Nat} {e : FieldError}
      (accepted : buildMacroConfig crates input.attrs = .ok config) (isStruct : input.data = .struct fields)
      (order : fields.entries = before ++ entry :: after)
      (earlier : ∀ x ∈ before, ∃ d r, FieldMeans text input.ident input.genericParams x.1 d ∧ lowerField d x.2.1 x.2.2 = .ok r)
      (refused : FieldRefused text input.ident input.genericParams entry.1 entry.2.1 entry.2.2 e) :
      InputRefused crates text input (.field e)

theorem lowerEntries_refused {text : FieldType → TypePath} {structName : String} {genericParams : List String}
    {entries : List (WrittenField × String × Option Nat)} {e : FieldError} :
    lowerEntries text structName genericParams entries = .error e ↔
      ∃ before entry after, entries = before ++ entry :: after ∧
        (∀ x ∈ before, ∃ d r, FieldMeans text structName genericParams x.1 d ∧ lowerField d x.2.1 x.2.2 = .ok r) ∧
        FieldRefused text structName genericParams entry.1 entry.2.1 entry.2.2 e := by
  have haccepted : ∀ x : WrittenField × String × Option Nat,
      (∃ r, lowerWrittenField text structName genericParams x.1 x.2.1 x.2.2 = .ok r) ↔
        ∃ d r, FieldMeans text structName genericParams x.1 d ∧ lowerField d x.2.1 x.2.2 = .ok r := by
    intro x
    constructor
    · rintro ⟨r, hr⟩
      obtain ⟨d, hd, hlower⟩ := lowerWrittenField_ok.mp hr
      exact ⟨d, r, hd, hlower⟩
    · rintro ⟨d, r, hd, hlower⟩
      exact ⟨r, lowerWrittenField_ok.mpr ⟨d, hd, hlower⟩⟩
  rw [lowerEntries_error]
  simp only [haccepted, lowerWrittenField_error]

/-- The error of the expansion is the first there is. -/
theorem toDataframeDerive_error (crates : Crates) (text : FieldType → TypePath) (input : WrittenInput) (e : InputError) :
    toDataframeDerive crates text input = .error e ↔ InputRefused crates text input e := by
  rw [toDataframeDerive, mapError_bind_error]
  constructor
  · rintro (⟨e', hcontainer, rfl⟩ | ⟨config, hconfig, h⟩)
    · exact .container hcontainer
    · have hparse : parseWrittenToIr text input = .error e := by
        cases hir : parseWrittenToIr text input with
        | error e' =>
          rw [hir, error_bind] at h
          cases h
          rfl
        | ok ir =>
          rw [hir, ok_bind] at h
          cases h
      cases hdata : input.data with
      | enum =>
        rw [parseWrittenToIr, hdata] at hparse
        cases hparse
        exact .enum hconfig hdata
      | union =>
        rw [parseWrittenToIr, hdata] at hparse
        cases hparse
        exact .union hconfig hdata
      | struct fields =>
        rw [parseWrittenToIr, hdata, validateStructInput, ok_bind, mapError_bind_error] at hparse
        rcases hparse with ⟨e', hentries, rfl⟩ | ⟨lowered, -, h⟩
        · obtain ⟨before, entry, after, horder, hearlier, hrefused⟩ := lowerEntries_refused.mp hentries
          exact .field hconfig hdata horder hearlier hrefused
        · cases h
  · intro h
    cases h with
    | container hcontainer => exact Or.inl ⟨_, hcontainer, rfl⟩
    | enum hconfig hdata =>
      refine Or.inr ⟨_, hconfig, ?_⟩
      rw [parseWrittenToIr, hdata, validateStructInput, error_bind, error_bind]
    | union hconfig hdata =>
      refine Or.inr ⟨_, hconfig, ?_⟩
      rw [parseWrittenToIr, hdata, validateStructInput, error_bind, error_bind]
    | field hconfig hdata horder hearlier hrefused =>
      refine Or.inr ⟨_, hconfig, ?_⟩
      have hentries := lowerEntries_refused.mpr ⟨_, _, _, horder, hearlier, hrefused⟩
      rw [parseWrittenToIr, hdata, validateStructInput, ok_bind, hentries]
      rfl

/-! ## The implementation -/

/-- The identifiers as rustc accepts them. -/
def WrittenFields.Identifiers : WrittenFields → Prop
  | named fields =>
    (fields.map fun f => columnNameForIdent f.1).Nodup ∧ ∀ f ∈ fields, '.' ∉ (columnNameForIdent f.1).toList
  | unnamed _ | unit => True

def WrittenInput.Identifiers (input : WrittenInput) : Prop := ∀ fields, input.data = .struct fields → fields.Identifiers

theorem FieldsMean.identifiers {text : FieldType → TypePath} {structName : String} {genericParams : List String}
    {fields : WrittenFields} {decls : Fields} (h : FieldsMean text structName genericParams fields decls)
    (hid : fields.Identifiers) : decls.Identifiers := by
  cases h with
  | named each =>
    rename_i written decls
    have hnames : written.map (·.1) = decls.map (·.1) := by
      rw [← List.forall₂_eq_eq_eq, List.forall₂_map_left_iff, List.forall₂_map_right_iff]
      exact each.imp fun _ _ hfield => hfield.1
    obtain ⟨hnodup, hdots⟩ := hid
    have hcolumns : written.map (fun f => columnNameForIdent f.1) = decls.map fun f => columnNameForIdent f.1 := by
      have hmap := congrArg (List.map columnNameForIdent) hnames
      rwa [List.map_map, List.map_map] at hmap
    refine ⟨hcolumns ▸ hnodup, fun d hd => ?_⟩
    have hmem : d.1 ∈ written.map (·.1) := by
      rw [hnames]
      exact List.mem_map.mpr ⟨d, hd, rfl⟩
    obtain ⟨f, hf, hname⟩ := List.mem_map.mp hmem
    have hdot := hdots f hf
    rwa [hname] at hdot
  | unnamed each => trivial
  | unit => trivial

/-- What is accepted is a struct, the one it declares. -/
theorem DerivedStruct.of_toDataframeDerive {crates : Crates} {text : FieldType → TypePath} {input : WrittenInput}
    (hid : input.Identifiers) {config : MacroConfig} {ir : StructIR}
    (h : toDataframeDerive crates text input = .ok (config, ir)) :
    ∃ s : DerivedStruct, InputMeans text input s.input ∧ s.ir = ir := by
  obtain ⟨-, d, hmeans, hparse⟩ := toDataframeDerive_ok.mp h
  obtain ⟨fields, hdata, hfields⟩ := hmeans.fields
  obtain ⟨s, rfl, hir⟩ := DerivedStruct.of_parseToIr (hfields.identifiers (hid fields hdata)) hparse
  exact ⟨s, hmeans, hir⟩

/-- What is accepted is implemented as the struct it declares, over any nested types that
    follow their references. -/
theorem derived_implementation (crates : Crates) (text : FieldType → TypePath) (input : WrittenInput)
    (hid : input.Identifiers) {config : MacroConfig} {ir : StructIR}
    (h : toDataframeDerive crates text input = .ok (config, ir)) :
    ∃ s : DerivedStruct, InputMeans text input s.input ∧ s.ir = ir ∧
      ∀ (env : Env) (spec : TypePath → RowSpec) (typeName : String), (∀ ty, Models (env.impl ty) (spec ty)) →
        Models (generateImpl env ir typeName) (structRow env.traits spec s.refs) := by
  obtain ⟨s, hmeans, rfl⟩ := DerivedStruct.of_toDataframeDerive hid h
  exact ⟨s, hmeans, rfl, fun env spec typeName hm => generateImpl_models (s.refersTo hm)⟩

/-- A path of one name. -/
def writtenName (name : String) : FieldType := .path none false (plain [name])

/-- The name of a path's last segment. -/
def lastName : FieldType → TypePath
  | .path _ _ segments => (segments.getLast?.map FieldSegment.ident).getD ""
  | _ => ""

/-- `struct Pair<T> { first: T, points: Vec<Point>, #[df_derive(skip)] label: str }` -/
def pairInput : WrittenInput where
  attrs := []
  ident := "Pair"
  generics := [.type "T"]
  data := .struct (.named
    [("first", ⟨[], writtenName "T"⟩),
      ("points", ⟨[], .path none false (applied ["Vec"] (.angleBracketed [.type (writtenName "Point")]))⟩),
      ("label", ⟨[⟨"df_derive", [.skip]⟩], writtenName "str"⟩)])

def pairDecls : DeriveInput :=
  ⟨"Pair", .named [("first", ⟨.mk [] (.leaf (.generic "T")), .include .default⟩),
    ("points", ⟨.mk [.vec] (.leaf (.struct "Point")), .include .default⟩), ("label", ⟨.mk [] (.leaf .bool), .skip⟩)]⟩

theorem pairInput_means : InputMeans lastName pairInput pairDecls where
  ident := rfl
  fields := by
    have hparam : IsParam ["T"] "T" (writtenName "T") := ⟨List.mem_singleton_self _, false, rfl⟩
    have hpoint : (writtenName "Point").IsPlain ["Point"] := ⟨false, rfl⟩
    have hforeign : IsForeign ["T"] (writtenName "Point") :=
      isForeign_of_plain hpoint (by decide) (by decide) (by intro collection; cases collection <;> decide) (by decide)
    have hvec : FieldType.IsWrapper (.path none false (applied ["Vec"] (.angleBracketed [.type (writtenName "Point")])))
        .vec (writtenName "Point") := .vec ⟨false, ["Vec"], by decide, rfl⟩
    refine ⟨_, rfl, .named (.cons ⟨rfl, trivial, List.mem_cons_self, fun _ => ⟨.base (.generic hparam), ?_⟩⟩
      (.cons ⟨rfl, trivial, List.mem_cons_self, fun _ => ⟨.wrapper hvec (.base (.struct hforeign)), ?_⟩⟩
        (.cons ⟨rfl, trivial, List.mem_cons_self, fun hskip => absurd rfl hskip⟩ .nil)))⟩
    · rintro ⟨leaf, hleaf, -⟩
      rw [Holds.of_stays rfl (fun _ h => by cases h)] at hleaf
      exact hleaf.1.notParam _ hparam
    · rintro ⟨leaf, hleaf, hself⟩
      rw [Holds.of_wraps hvec, Holds.of_stays rfl (fun _ h => by cases h)] at hleaf
      obtain ⟨-, rfl⟩ := hleaf
      have hspelled : (writtenName "Point").SpelledIn [["Point"]] := hpoint.spelledIn (List.mem_singleton_self _)
      exact hspelled.disjoint _ (by decide) hself

theorem pairInput_accepted :
    ∃ config ir, toDataframeDerive ⟨fun _ => none, none⟩ lastName pairInput = .ok (config, ir) :=
  ⟨_, _, toDataframeDerive_ok.mpr ⟨(rfl : buildMacroConfig ⟨fun _ => none, none⟩ pairInput.attrs = .ok _), _,
    pairInput_means, (rfl : parseToIr pairDecls = .ok _)⟩⟩

theorem derived_implementation_pair :
    ∃ config ir, toDataframeDerive ⟨fun _ => none, none⟩ lastName pairInput = .ok (config, ir) ∧
      ∃ s : DerivedStruct, InputMeans lastName pairInput s.input ∧ s.ir = ir ∧
        ∀ (env : Env) (spec : TypePath → RowSpec) (typeName : String), (∀ ty, Models (env.impl ty) (spec ty)) →
          Models (generateImpl env ir typeName) (structRow env.traits spec s.refs) := by
  have hid : pairInput.Identifiers := by
    rintro fields h
    cases h
    exact ⟨by decide, by decide⟩
  obtain ⟨config, ir, h⟩ := pairInput_accepted
  exact ⟨config, ir, h, derived_implementation _ _ _ hid h⟩

end DfDerive
