/-
  DfDerive.Derived.Tree — trees of derived structs.

  A `DerivedStruct` is a struct the derive accepts, with what lowering found in it. A
  `TypeTree` is a derived struct whose nested types and generic arguments are derived
  structs in turn, or `()`. Its implementation is generated from the tree; its reference
  never looks at generated code. `TypeTree.models` is that the two agree, everywhere in
  the tree.
-/

import DfDerive.Codegen.ColumnarProofs
import DfDerive.Spec.Names

namespace DfDerive

open Lib

/-- A struct that is accepted. -/
structure DerivedStruct where
  input : DeriveInput
  identifiers : input.fields.Identifiers
  fields : List FieldIR
  lowered : lowerFields input.fields = .ok fields

namespace DerivedStruct

def ir (s : DerivedStruct) : StructIR := ⟨s.input.ident, projectFieldsToColumns s.fields⟩

def refs (s : DerivedStruct) : List ColumnRef := s.fields.flatMap FieldIR.refs

/-- The struct comes from the derive's entry point. -/
theorem parseToIr_eq (s : DerivedStruct) : parseToIr s.input = .ok s.ir := by
  rw [parseToIr, s.lowered]
  rfl

/-- And every struct the entry point accepts is one. -/
theorem of_parseToIr {input : DeriveInput} {ir : StructIR} (hid : input.fields.Identifiers) (h : parseToIr input = .ok ir) :
    ∃ s : DerivedStruct, s.input = input ∧ s.ir = ir := by
  obtain ⟨fields, hfields, hok⟩ := bind_eq_ok.mp h
  cases hok
  exact ⟨⟨input, hid, fields, hfields⟩, rfl, rfl⟩

end DerivedStruct

/-! ## The columns of an accepted struct -/

theorem lowerNamedFields_projectable : ∀ {fields : List (String × FieldDecl)} {lowered : List FieldIR},
    lowerNamedFields fields = .ok lowered → ∀ f ∈ lowered, f.Projectable
  | [], _, h => by cases h; exact nofun
  | (name, field) :: fields, _, h => by
    obtain ⟨first, hfirst, h⟩ := bind_eq_ok.mp h
    obtain ⟨rest, hrest, hok⟩ := bind_eq_ok.mp h
    cases hok
    intro f hf
    rcases List.mem_append.mp hf with hf | hf
    · exact lowerField_projectable (hfirst.trans (congrArg Except.ok (Option.mem_toList.mp hf)))
    · exact lowerNamedFields_projectable hrest f hf

theorem lowerUnnamedFields_projectable : ∀ {fields : List FieldDecl} {index : Nat} {lowered : List FieldIR},
    lowerUnnamedFields index fields = .ok lowered → ∀ f ∈ lowered, f.Projectable
  | [], _, _, h => by cases h; exact nofun
  | field :: fields, index, _, h => by
    obtain ⟨first, hfirst, h⟩ := bind_eq_ok.mp h
    obtain ⟨rest, hrest, hok⟩ := bind_eq_ok.mp h
    cases hok
    intro f hf
    rcases List.mem_append.mp hf with hf | hf
    · exact lowerField_projectable (hfirst.trans (congrArg Except.ok (Option.mem_toList.mp hf)))
    · exact lowerUnnamedFields_projectable hrest f hf

theorem lowerFields_projectable {fields : Fields} {lowered : List FieldIR} (h : lowerFields fields = .ok lowered) :
    ∀ f ∈ lowered, f.Projectable := by
  cases fields with
  | named fields => exact lowerNamedFields_projectable h
  | unnamed fields => exact lowerUnnamedFields_projectable h
  | unit =>
    cases h
    exact nofun

theorem projectFieldsToColumns_refersTo : ∀ {fields : List FieldIR}, (∀ f ∈ fields, f.Projectable) →
    List.Forall₂ ColumnIR.RefersTo (projectFieldsToColumns fields) (fields.flatMap FieldIR.refs)
  | [], _ => .nil
  | f :: _, h =>
    List.rel_append (projectField_refersTo (h f List.mem_cons_self))
      (projectFieldsToColumns_refersTo fun g hg => h g (List.mem_cons_of_mem _ hg))

namespace DerivedStruct

variable (s : DerivedStruct)

theorem columns_refersTo : List.Forall₂ ColumnIR.RefersTo s.ir.columns s.refs :=
  projectFieldsToColumns_refersTo (lowerFields_projectable s.lowered)

theorem refs_apart : s.refs.Pairwise fun r t => NamesApart r.name t.name :=
  DfDerive.refs_apart (lowerFields_apart s.identifiers s.lowered)

/-- Without a flattened field every column is named by its field. -/
theorem refs_policy (h : needsUniqueNameValidation s.ir = false) : ∀ r ∈ s.refs, r.policy = .field := by
  have hpolicies : s.ir.columns.map ColumnIR.nestedNamePolicy = s.refs.map ColumnRef.policy := by
    rw [← List.forall₂_eq_eq_eq, List.forall₂_map_left_iff, List.forall₂_map_right_iff]
    exact s.columns_refersTo.imp fun _ _ href => href.policy
  intro r hr
  obtain ⟨c, hc, hpolicy⟩ := List.mem_map.mp (hpolicies ▸ List.mem_map_of_mem hr)
  have hnone : c.nestedNamePolicy.requiresUniqueNameValidation = false := by
    simpa using List.any_eq_false.mp h c hc
  rw [← hpolicy]
  cases hfield : c.nestedNamePolicy with
  | field => rfl
  | «flatten» =>
    rw [hfield] at hnone
    cases hnone
  | prefixed name =>
    rw [hfield] at hnone
    cases hnone

/-- Columns named by their fields have distinct names, whatever the nested types name theirs. -/
theorem names_nodup (hpolicy : ∀ r ∈ s.refs, r.policy = .field) {env : Env} {spec : TypePath → RowSpec}
    (hm : ∀ ty, Models (env.impl ty) (spec ty)) (hvalid : ∀ r ∈ s.refs, (r.row env.traits spec).valid) :
    ((structRow env.traits spec s.refs).columns.map ColumnSpec.name).Nodup := by
  rw [structRow_columnNames]
  refine columnNames_nodup hpolicy s.refs_apart fun r hr nested hroute => ?_
  -- an accepted nested type has an empty frame, whose names are distinct
  have hchild : (spec nested.ty).valid := by
    have hrow := hvalid r hr
    rw [ColumnRef.row, hroute] at hrow
    exact hrow
  obtain ⟨df, -, hframe⟩ := (hm nested.ty).emptyDataframe.1 hchild
  rw [← hframe.columns.names]
  exact df.names

/-- A struct over modelled nested types refers to its reference columns. -/
theorem refersTo {env : Env} {spec : TypePath → RowSpec} (hm : ∀ ty, Models (env.impl ty) (spec ty)) :
    s.ir.RefersTo env spec s.refs where
  columns := s.columns_refersTo
  models _ _ nested _ := hm nested.ty
  names hnone hvalid := s.names_nodup (s.refs_policy hnone) hm hvalid

end DerivedStruct

/-! ## Trees -/

/-- A row type built of derived structs: the nested types and the generic arguments of a
    struct, by the paths its fields mention them under, are row types in turn. -/
inductive TypeTree where
  | unit
  | derived (s : DerivedStruct) (typeName : String) (types : TypePath → TypeTree)

namespace TypeTree

/-- The implementation generated for the tree. -/
def impl (tr : Traits) : TypeTree → Impl
  | unit => unitImpl
  | derived s typeName types => generateImpl ⟨tr, fun ty => (types ty).impl tr⟩ s.ir typeName

/-- What its rows and columns are. -/
def spec (tr : Traits) : TypeTree → RowSpec
  | unit => RowSpec.empty
  | derived s _ types => structRow tr (fun ty => (types ty).spec tr) s.refs

end TypeTree

theorem DataFrame.eq_of_nil {a b : DataFrame} (ha : a.columns = []) (hb : b.columns = []) (hh : a.height = b.height) :
    a = b := by
  obtain ⟨acols, ah, _, _⟩ := a
  obtain ⟨bcols, bh, _, _⟩ := b
  subst ha hb hh
  rfl

theorem unitImpl_models : Models unitImpl RowSpec.empty where
  schema := Runs.pure trivial rfl
  emptyDataframe := by
    obtain ⟨df, hdf, hcols, hheight⟩ := newInferHeight_nil
    rw [show unitImpl.emptyDataframe = .ok df from hdf]
    exact Runs.pure trivial ⟨hcols ▸ .nil, hheight⟩
  fromRefs vs _ := by
    obtain ⟨df, hdf, hcols, hheight⟩ := zeroColumnDataframeWithHeight_eq vs.length
    rw [show unitImpl.columnarFromRefs vs = .ok df from hdf]
    exact Runs.pure ⟨trivial, trivial, fun _ _ => trivial⟩ ⟨hcols ▸ .nil, hheight⟩
  toDataframe _ := rfl
  direct _ := rfl
  nil := by
    obtain ⟨df, hdf, hcols, hheight⟩ := zeroColumnDataframeWithHeight_eq 0
    obtain ⟨e, he, hecols, heheight⟩ := newInferHeight_nil
    show zeroColumnDataframeWithHeight 0 = DataFrame.newInferHeight []
    rw [hdf, he, DataFrame.eq_of_nil hcols hecols (hheight.trans heheight.symm)]

/-- The generated implementations follow their references, all the way down. -/
theorem TypeTree.models (tr : Traits) : ∀ t : TypeTree, Models (t.impl tr) (t.spec tr)
  | .unit => unitImpl_models
  | .derived s _ types => generateImpl_models (s.refersTo fun ty => (types ty).models tr)

/-! ## A tree to run -/

/-- `struct Point { x: i64 }` -/
def pointStruct : DerivedStruct where
  input := ⟨"Point", .named [("x", ⟨.mk [] (.leaf (.numeric .i64)), .include .default⟩)]⟩
  identifiers := ⟨List.nodup_singleton _, by decide⟩
  fields := [⟨"x", none, .numeric .i64, .leaf .bare, 0, .field⟩]
  lowered := rfl

/-- `struct Track { points: Vec<Option<Point>>, mark: Option<(bool, Point)> }` -/
def trackStruct : DerivedStruct where
  input := ⟨"Track", .named [("points", ⟨.mk [.vec, .option] (.leaf (.struct "Point")), .include .default⟩),
    ("mark", ⟨.mk [.option] (.tuple [.mk [] (.leaf .bool), .mk [] (.leaf (.struct "Point"))]), .include .default⟩)]⟩
  identifiers := ⟨by decide, by decide⟩
  fields := [⟨"points", none, .struct "Point", normalizeWrappers [.vec, .option], 0, .field⟩,
    ⟨"mark", none, .tuple [.mk .bool (.leaf .bare) 0, .mk (.struct "Point") (.leaf .bare) 0], normalizeWrappers [.option],
      0, .field⟩]
  lowered := rfl

def pointTree : TypeTree := .derived pointStruct "Point" fun _ => .unit

def trackTree : TypeTree := .derived trackStruct "Track" fun _ => pointTree

def pointRow (n : Int) : Value := .struct [("x", .scalar (.int n))]

def trackRow : Value := .struct [("points", .vec [.some (pointRow 1), .none]), ("mark", .none)]

/-- The conversions of `chrono` outside leap seconds, as plain counts. -/
def countingChrono : Chrono where
  timestampMillis secs nanos := secs * 1000 + (nanos / 1000000 : Nat)
  timestampMicros secs nanos := secs * 1000000 + (nanos / 1000 : Nat)
  timestampNanosOpt secs nanos := checkedI64 (secs * 1000000000 + nanos)
  numMilliseconds secs nanos := (secs * 1000000000 + nanos).tdiv 1000000
  numMicroseconds secs nanos := checkedI64 ((secs * 1000000000 + nanos).tdiv 1000)
  numNanoseconds secs nanos := checkedI64 (secs * 1000000000 + nanos)

/-- A `Display` that always fails. -/
def brokenTraits : Traits := ⟨fun _ => ("", false), fun _ => "", fun _ _ => none, countingChrono⟩

theorem pointRow_typed (tr : Traits) (n : Int) : (pointTree.spec tr).typed (pointRow n) :=
  ⟨⟨.scalar (.int n), rfl, Or.inl ⟨n, rfl, nofun⟩⟩, trivial⟩

theorem trackRow_typed (tr : Traits) : (trackTree.spec tr).typed trackRow := by
  have hpoints : HasWord (pointTree.spec tr).typed [.vec, .option] (.vec [.some (pointRow 1), .none]) := by
    intro u hu
    rcases List.mem_cons.mp hu with rfl | hu
    · exact pointRow_typed tr 1
    · rw [List.mem_singleton.mp hu]
      trivial
  exact ⟨⟨_, rfl, hpoints⟩, ⟨_, rfl, trivial⟩, ⟨_, rfl, trivial⟩, trivial⟩

/-- A run whose result can be looked at has one. -/
theorem Run.ok_of_map {α β : Type} {r : Run α} {f : α → β} {b : β} (h : r.map f = .ok b) : ∃ a, r = .ok a ∧ f a = b := by
  cases r with
  | error e => cases h
  | ok a =>
    cases h
    exact ⟨a, rfl, rfl⟩

theorem Run.Spec.of_map {α β : Type} {r : Run α} {G : Prop} {P : α → Prop} (h : Run.Spec r G P) (f : α → β) {b : β}
    (hr : r.map f = .ok b) : ∃ a, r = .ok a ∧ P a := by
  obtain ⟨a, rfl, -⟩ := Run.ok_of_map hr
  exact ⟨a, rfl, (h.of_eq_ok rfl).2⟩

example : ((trackTree.impl brokenTraits).columnarToDataframe [trackRow]).map DataFrame.cells =
    .ok [[.list [.val (.int 1), .null]], [.null], [.null]] := rfl

end DfDerive
