/-
  DfDerive.Derived.Origins — where the types in the columns of an accepted struct come from.

  The type a column is of, when it is none of the derive's own, is held by the type of a field
  that was not skipped: a generic parameter of the struct, or a path as it was written there
  (`InputMeans.origins`). So no column goes back into the struct by one of the paths by which
  it can name itself (`no_direct_self_reference`).
-/

import DfDerive.Columns.Leaves
import DfDerive.Derived.Entry

namespace DfDerive

open Lib FieldType

/-! ## Leaves of a lowered field -/

/-- The type that a leaf is of, as a base, when it is none of the derive's own. -/
def LeafSpec.origin : LeafSpec → Option LeafBase
  | .generic ident | .asStr (.generic ident) | .asString (.generic ident) | .decimal _ _ (.generic ident) =>
    some (.generic ident)
  | .struct ty | .asStr (.struct ty) | .asString (.struct ty) | .decimal _ _ (.struct ty) => some (.struct ty)
  | _ => none

theorem defaultLeafForLeafBase_origin {field : String} {canAddAsBinary : Bool} {base base' : LeafBase} {leaf : LeafSpec}
    (h : defaultLeafForLeafBase field canAddAsBinary base = .ok leaf) (horigin : leaf.origin = some base') : base = base' := by
  cases base <;> cases h <;> cases horigin <;> rfl

theorem parseLeafSpec_origin {field : String} {value : LeafOverride} {base base' : LeafBase} {leaf : LeafSpec}
    (h : parseLeafSpec field (some value) (.leaf base) = .ok leaf) (horigin : leaf.origin = some base') : base = base' := by
  cases value with
  | asString => cases base <;> cases h <;> cases horigin <;> rfl
  | asStr => cases base <;> cases h <;> cases horigin <;> rfl
  | decimal precision scale => cases base <;> cases h <;> cases horigin <;> rfl
  | timeUnit unit => cases base <;> cases h <;> cases horigin

/-- An attribute changes the encoding of a leaf, never the type it is of. -/
theorem FieldLeaf.leafSpec_origin {l : FieldLeaf} {leaf : LeafSpec} {base : LeafBase} (h : l.leafSpec = .ok leaf)
    (horigin : leaf.origin = some base) : l.base = base := by
  unfold FieldLeaf.leafSpec at h
  split at h
  · exact parseLeafSpec_origin h horigin
  · cases h
    cases horigin
  · exact defaultLeafForLeafBase_origin h horigin
  · exact defaultLeafForLeafBase_origin h horigin

theorem FieldDecl.mem_leaves {decl : FieldDecl} {name : String} {fieldIndex : Option Nat} {l : FieldLeaf}
    (h : l ∈ decl.leaves name fieldIndex) : decl.disposition ≠ .skip ∧ l.toTypeLeaf ∈ baseLeaves [] decl.ty.base := by
  obtain ⟨⟨stack, base⟩, disposition⟩ := decl
  cases disposition with
  | skip => cases h
  | «include» conversion =>
    obtain ⟨leaf, hleaf, rfl⟩ := List.mem_map.mp h
    exact ⟨nofun, hleaf⟩

/-! ## Leaves of a written type -/

section
variable (genericParams : List String) (text : FieldType → TypePath)

/-- The type `ty` is written with the base: a parameter of the struct, or a path it holds. -/
def Origin (ty : FieldType) : LeafBase → Prop
  | .generic ident => ident ∈ genericParams
  | .struct written => ∃ leaf, Holds genericParams ty leaf ∧ text leaf = written
  | _ => True

variable {genericParams text}

theorem Origin.imp {ty ty' : FieldType} (h : ∀ leaf, Holds genericParams ty leaf → Holds genericParams ty' leaf) :
    ∀ {base : LeafBase}, Origin genericParams text ty base → Origin genericParams text ty' base
  | .struct _, ⟨leaf, hleaf, htext⟩ => ⟨leaf, h leaf hleaf, htext⟩
  | .generic _, h => h
  | .numeric _, _ | .string, _ | .borrowedStr, _ | .cowStr, _ | .borrowedBytes, _ | .cowBytes, _ | .borrowedSlice, _
  | .cowSlice, _ | .bool, _ | .dateTimeTz, _ | .naiveDate, _ | .naiveTime, _ | .naiveDateTime, _ | .stdDuration, _
  | .chronoDuration, _ | .decimal, _ => trivial

theorem Origin.known (ty : FieldType) (base : KnownBase) : Origin genericParams text ty base.leafBase := by
  cases base <;> trivial

theorem typeLeaves_base (path : List TupleProjectionStep) (index : Nat) (rt : RustType) :
    typeLeaves path index rt = baseLeaves (path ++ [⟨index, outerPointers rt.stack⟩]) rt.base := by
  cases rt
  rfl

mutual
theorem Means.origins {ty : FieldType} {rt : RustType} : Means genericParams text ty rt → ∀ path,
    ∀ l ∈ baseLeaves path rt.base, Origin genericParams text ty l.base
  | .wrapper hw h => fun path l hl => (h.origins path l hl).imp fun _ => .wrapper hw
  | .base h => fun path l hl => h.origins path l hl

theorem BaseMeans.origins {ty : FieldType} {base : RustBase} : BaseMeans genericParams text ty base → ∀ path,
    ∀ l ∈ baseLeaves path base, Origin genericParams text ty l.base
  | .tuple _ h => fun path l hl => by
    obtain ⟨elem, helem, horigin⟩ := h.origins path 0 l hl
    exact horigin.imp fun _ => .element helem
  | .generic hparam => fun _ l hl => by
    rw [List.mem_singleton.mp hl]
    exact hparam.1
  | .struct hforeign => fun _ l hl => by
    rw [List.mem_singleton.mp hl]
    exact ⟨ty, .here hforeign, rfl⟩
  | .known _ _ => fun _ l hl => by
    rw [List.mem_singleton.mp hl]
    exact Origin.known _ _
  | .borrowedStr _ | .borrowedBytes _ | .borrowedSlice _ | .cowStr _ _ | .cowBytes _ _ | .cowSlice _ _ => fun _ l hl => by
    rw [List.mem_singleton.mp hl]
    trivial

theorem EachMeans.origins {tys : List FieldType} {rts : List RustType} : EachMeans genericParams text tys rts →
    ∀ path index, ∀ l ∈ typesLeaves path index rts, ∃ ty ∈ tys, Origin genericParams text ty l.base
  | .nil => fun _ _ l hl => by cases hl
  | .cons h hs => fun path index l hl => by
    rcases List.mem_append.mp hl with hl | hl
    · rw [typeLeaves_base] at hl
      exact ⟨_, List.mem_cons_self, h.origins _ l hl⟩
    · obtain ⟨ty, hty, horigin⟩ := hs.origins path (index + 1) l hl
      exact ⟨ty, List.mem_cons_of_mem _ hty, horigin⟩
end

end

/-! ## Columns -/

def WrittenFields.fields : WrittenFields → List WrittenField
  | named fields => fields.map (·.2)
  | unnamed fields => fields
  | unit => []

theorem forall₂_mem_right {α β : Type} {R : α → β → Prop} {as : List α} {bs : List β} (h : List.Forall₂ R as bs) :
    ∀ b ∈ bs, ∃ a ∈ as, R a b := by
  induction h with
  | nil => exact nofun
  | cons hab _ ih =>
    intro b hb
    rcases List.mem_cons.mp hb with rfl | hb
    · exact ⟨_, List.mem_cons_self, hab⟩
    · obtain ⟨a, ha, h⟩ := ih b hb
      exact ⟨a, List.mem_cons_of_mem _ ha, h⟩

/-- A leaf of what fields declare is one of a field that is written. -/
theorem FieldsMean.leaf {text : FieldType → TypePath} {structName : String} {genericParams : List String}
    {fields : WrittenFields} {decls : Fields} (h : FieldsMean text structName genericParams fields decls) {l : FieldLeaf}
    (hl : l ∈ decls.leaves) :
    ∃ field ∈ fields.fields, ∃ d, FieldMeans text structName genericParams field d ∧ d.disposition ≠ .skip ∧
      l.toTypeLeaf ∈ baseLeaves [] d.ty.base := by
  cases h with
  | named each =>
    obtain ⟨decl, hdecl, hl⟩ := List.mem_flatMap.mp hl
    obtain ⟨field, hfield, -, hmeans⟩ := forall₂_mem_right each decl hdecl
    obtain ⟨hskip, hleaf⟩ := FieldDecl.mem_leaves hl
    exact ⟨field.2, List.mem_map_of_mem hfield, decl.2, hmeans, hskip, hleaf⟩
  | unnamed each =>
    obtain ⟨⟨decl, index⟩, hdecl, hl⟩ := List.mem_flatMap.mp hl
    obtain ⟨field, hfield, hmeans⟩ := forall₂_mem_right each decl (List.fst_mem_of_mem_zipIdx hdecl)
    obtain ⟨hskip, hleaf⟩ := FieldDecl.mem_leaves hl
    exact ⟨field, hfield, decl, hmeans, hskip, hleaf⟩
  | unit => cases hl

/-- The type a column is of comes from the type of a field, which does not hold the struct. -/
theorem InputMeans.origins {text : FieldType → TypePath} {input : WrittenInput} {d : DeriveInput}
    (h : InputMeans text input d) {ir : StructIR} (hir : parseToIr d = .ok ir) {c : ColumnIR} (hc : c ∈ ir.columns)
    {base : LeafBase} (horigin : c.leafSpec.leaf.origin = some base) :
    ∃ fields, input.data = .struct fields ∧ ∃ field ∈ fields.fields,
      Origin input.genericParams text field.ty base ∧ ¬ HoldsItself input.genericParams input.ident field.ty := by
  obtain ⟨fields, hdata, hfields⟩ := h.fields
  obtain ⟨lowered, hlowered, hok⟩ := bind_eq_ok.mp hir
  cases hok
  obtain ⟨l, hl, hof, -⟩ := exists_related (lowerFields_leaves hlowered) c hc
  obtain ⟨field, hfield, decl, hmeans, hskip, hleaf⟩ := hfields.leaf hl
  obtain ⟨hty, hself⟩ := hmeans.means hskip
  have hbase := FieldLeaf.leafSpec_origin hof.leafSpec horigin
  refine ⟨fields, hdata, field, hfield, ?_, hself⟩
  rw [← hbase]
  exact hty.origins [] _ hleaf

/-- A column of an accepted struct is never of the struct itself, by any of the paths the
    struct has for itself: what it is of is a path some field holds, and none of these. -/
theorem no_direct_self_reference (crates : Crates) (text : FieldType → TypePath) (input : WrittenInput) {config : MacroConfig}
    {ir : StructIR} (h : toDataframeDerive crates text input = .ok (config, ir)) :
    ∀ c ∈ ir.columns, ∀ path, c.leafSpec.leaf.origin = some (.struct path) →
      ∃ fields, input.data = .struct fields ∧ ∃ field ∈ fields.fields, ∃ leaf,
        Holds input.genericParams field.ty leaf ∧ text leaf = path ∧ ¬ leaf.SpelledIn (selfPaths input.ident) := by
  intro c hc path horigin
  obtain ⟨-, d, hmeans, hir⟩ := toDataframeDerive_ok.mp h
  obtain ⟨fields, hdata, field, hfield, ⟨leaf, hleaf, htext⟩, hself⟩ := hmeans.origins hir hc horigin
  exact ⟨fields, hdata, field, hfield, leaf, hleaf, htext, fun hspelled => hself ⟨leaf, hleaf, hspelled⟩⟩

theorem no_direct_self_reference_pair :
    ∃ config ir, toDataframeDerive ⟨fun _ => none, none⟩ lastName pairInput = .ok (config, ir) ∧
      ∀ c ∈ ir.columns, ∀ path, c.leafSpec.leaf.origin = some (.struct path) →
        ∃ fields, pairInput.data = .struct fields ∧ ∃ field ∈ fields.fields, ∃ leaf,
          Holds pairInput.genericParams field.ty leaf ∧ lastName leaf = path ∧ ¬ leaf.SpelledIn (selfPaths pairInput.ident) := by
  obtain ⟨config, ir, h⟩ := pairInput_accepted
  exact ⟨config, ir, h, no_direct_self_reference _ _ _ h⟩

end DfDerive
