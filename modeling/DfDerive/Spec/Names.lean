/-
  DfDerive.Spec.Names — generated names are distinct.

  Every column below a field is named by the field, or by the field, a dot and more; the
  fields of a struct have distinct names without dots, and the elements of a tuple are
  numbered. So the stems of the columns are pairwise apart (`refs_apart`), and without a
  flattened field all the names are distinct (`columnNames_nodup`).
-/

import DfDerive.Lib.Separated
import DfDerive.Spec.Fields
import Mathlib.Data.List.Nodup

namespace DfDerive

open Lib

/-- Neither name is the other, or the other with a dotted rest. -/
def NamesApart (a b : String) : Prop := Apart '.' a.toList b.toList

def NameExtends (a b : String) : Prop := Extends '.' a.toList b.toList

theorem NameExtends.dot (a b : String) : NameExtends a (a ++ "." ++ b) := by
  have htext : (a ++ "." ++ b).toList = a.toList ++ '.' :: b.toList := by simp [String.toList_append]
  rw [NameExtends, htext]
  exact Extends.more '.' _ _

theorem fieldName_toList (column : String) (index : Nat) :
    (fieldName column index).toList = column.toList ++ ('.' :: "field_".toList ++ Nat.toDigits 10 index) := by
  have htext : fieldName column index = column ++ ".field_" ++ Nat.repr index := rfl
  rw [htext]
  simp [String.toList_append]

theorem nameExtends_fieldName (column : String) (index : Nat) : NameExtends column (fieldName column index) := by
  rw [NameExtends, fieldName_toList]
  exact Extends.more '.' _ _

theorem digits_no_dot (n : Nat) : '.' ∉ Nat.toDigits 10 n := fun h =>
  absurd (Nat.isDigit_of_mem_toDigits (by decide) (by decide) h) (by decide)

theorem digits_injective {m n : Nat} (h : Nat.toDigits 10 m = Nat.toDigits 10 n) : m = n := by
  rw [← @Nat.ofDigitChars_toDigits 10 m (by decide) (by decide), h, Nat.ofDigitChars_toDigits (by decide) (by decide)]

/-- Elements at different positions have names apart. -/
theorem fieldName_apart (column : String) {i j : Nat} (h : i ≠ j) : NamesApart (fieldName column i)
    (fieldName column j) := by
  have hdigits : Apart '.' (Nat.toDigits 10 i) (Nat.toDigits 10 j) :=
    .of_not_mem (digits_no_dot i) (digits_no_dot j) fun heq => h (digits_injective heq)
  rw [NamesApart, fieldName_toList, fieldName_toList, ← List.append_assoc, ← List.append_assoc]
  exact hdigits.append_left _

/-! ## The stems of the columns -/

mutual
/-- The elements from a position on are named by their positions. -/
theorem elementsRefs_names (w : Walk) (carried : Bool) (column : String) : ∀ (index : Nat) (elements : List TupleElement),
    (∀ r ∈ elementsRefs w carried column index elements, ∃ i, index ≤ i ∧ NameExtends (fieldName column i) r.name) ∧
      (elementsRefs w carried column index elements).Pairwise fun r s => NamesApart r.name s.name
  | _, [] => ⟨nofun, .nil⟩
  | index, element :: elements => by
    obtain ⟨hhead, hapart⟩ := elementRefs_names w carried (fieldName column index) index element
    obtain ⟨htail, hrest⟩ := elementsRefs_names w carried column (index + 1) elements
    refine ⟨fun r hr => ?_, List.pairwise_append.mpr ⟨hapart, hrest, fun r hr s hs => ?_⟩⟩
    · rcases List.mem_append.mp hr with hr | hr
      · exact ⟨index, Nat.le_refl _, hhead r hr⟩
      · obtain ⟨i, hi, hext⟩ := htail r hr
        exact ⟨i, by omega, hext⟩
    · obtain ⟨i, hi, hext⟩ := htail s hs
      exact (fieldName_apart column (by omega)).extend (hhead r hr) hext

theorem elementRefs_names (w : Walk) (carried : Bool) (name : String) (index : Nat) : ∀ element : TupleElement,
    (∀ r ∈ elementRefs w carried name index element, NameExtends name r.name) ∧
      (elementRefs w carried name index element).Pairwise fun r s => NamesApart r.name s.name
  | .mk leafSpec shape outerSmartPtrDepth =>
    leafRefs_names (w.comp (stepWalk ⟨index, outerSmartPtrDepth⟩ shape)) (carriedOption carried shape) .field name leafSpec

theorem leafRefs_names (w : Walk) (carried : Bool) (policy : NestedNamePolicy) (name : String) : ∀ leafSpec : LeafSpec,
    (∀ r ∈ leafRefs w carried policy name leafSpec, NameExtends name r.name) ∧
      (leafRefs w carried policy name leafSpec).Pairwise fun r s => NamesApart r.name s.name
  | .tuple elements => by
    obtain ⟨hnames, hapart⟩ := elementsRefs_names w carried name 0 elements
    refine ⟨fun r hr => ?_, hapart⟩
    obtain ⟨i, -, hext⟩ := hnames r hr
    exact (nameExtends_fieldName name i).trans hext
  | .numeric _ | .string | .bool | .dateTime _ | .naiveDateTime _ | .naiveDate | .naiveTime | .duration _ _
  | .decimal _ _ _ | .asString _ | .asStr _ | .binary | .struct _ | .generic _ =>
    ⟨fun r hr => by rw [List.mem_singleton.mp hr]; exact Extends.refl '.' _, List.pairwise_singleton _ _⟩
end

/-! ## The names of a struct -/

/-- The identifiers of a struct's fields, as rustc accepts them: distinct, and without dots. -/
def Fields.Identifiers : Fields → Prop
  | .named fields =>
    (fields.map fun f => columnNameForIdent f.1).Nodup ∧ ∀ f ∈ fields, '.' ∉ (columnNameForIdent f.1).toList
  | .unnamed _ | .unit => True

/-- Named fields are lowered under their identifiers. -/
theorem lowerNamedFields_names : ∀ {fields : List (String × FieldDecl)} {lowered : List FieldIR},
    lowerNamedFields fields = .ok lowered → (lowered.map FieldIR.name).Sublist (fields.map (·.1))
  | [], _, h => by cases h; exact .slnil
  | (name, field) :: fields, _, h => by
    obtain ⟨first, hfirst, h⟩ := bind_eq_ok.mp h
    obtain ⟨rest, hrest, hok⟩ := bind_eq_ok.mp h
    cases hok
    have ih := lowerNamedFields_names hrest
    cases first with
    | none => exact ih.cons name
    | some ir =>
      obtain ⟨_, _, _, _, _, _, _, _, _, rfl⟩ := lowerField_ok hfirst
      exact ih.cons_cons name

/-- Fields of a tuple struct are lowered under their positions. -/
theorem lowerUnnamedFields_names : ∀ {fields : List FieldDecl} {index : Nat} {lowered : List FieldIR},
    lowerUnnamedFields index fields = .ok lowered →
      (lowered.map FieldIR.name).Sublist ((List.range' index fields.length).map fun i => s!"field_{i}")
  | [], _, _, h => by cases h; exact .slnil
  | field :: fields, index, _, h => by
    obtain ⟨first, hfirst, h⟩ := bind_eq_ok.mp h
    obtain ⟨rest, hrest, hok⟩ := bind_eq_ok.mp h
    cases hok
    have ih := lowerUnnamedFields_names hrest
    cases first with
    | none => exact ih.cons _
    | some ir =>
      obtain ⟨_, _, _, _, _, _, _, _, _, rfl⟩ := lowerField_ok hfirst
      exact ih.cons_cons _

theorem fieldIdent_text (index : Nat) : s!"field_{index}".toList = "field_".toList ++ Nat.toDigits 10 index := by
  have h : s!"field_{index}" = "field_" ++ Nat.repr index := rfl
  rw [h]
  simp [String.toList_append]

theorem columnNameForIdent_field (index : Nat) : columnNameForIdent s!"field_{index}" = s!"field_{index}" := by
  unfold columnNameForIdent
  rw [fieldIdent_text]
  rfl

theorem fieldIdent_toList (index : Nat) :
    (columnNameForIdent s!"field_{index}").toList = "field_".toList ++ Nat.toDigits 10 index := by
  rw [columnNameForIdent_field, fieldIdent_text]

/-- Columns of distinct fields have stems apart. -/
theorem lowerFields_apart {fields : Fields} {lowered : List FieldIR} (hid : fields.Identifiers)
    (h : lowerFields fields = .ok lowered) :
    lowered.Pairwise fun f g => NamesApart (columnNameForIdent f.name) (columnNameForIdent g.name) := by
  rw [← List.pairwise_map (f := FieldIR.name) (R := fun a b => NamesApart (columnNameForIdent a) (columnNameForIdent b))]
  cases fields with
  | named fields =>
    refine List.Pairwise.sublist (lowerNamedFields_names h) ?_
    obtain ⟨hnodup, hdots⟩ := hid
    rw [List.nodup_iff_pairwise_ne, List.pairwise_map] at hnodup
    rw [List.pairwise_map]
    refine hnodup.imp_of_mem fun {a b} ha hb hne => .of_not_mem (hdots a ha) (hdots b hb) fun heq => hne (String.toList_inj.mp heq)
  | unnamed fields =>
    refine List.Pairwise.sublist (lowerUnnamedFields_names h) ?_
    rw [List.pairwise_map]
    refine (List.nodup_range').imp fun {i j} hne => ?_
    rw [NamesApart, fieldIdent_toList, fieldIdent_toList]
    exact Apart.append_left (.of_not_mem (digits_no_dot i) (digits_no_dot j) fun heq => hne (digits_injective heq)) _
  | unit =>
    cases h
    exact .nil

/-- So have the columns of a struct. -/
theorem refs_apart {lowered : List FieldIR}
    (h : lowered.Pairwise fun f g => NamesApart (columnNameForIdent f.name) (columnNameForIdent g.name)) :
    (lowered.flatMap FieldIR.refs).Pairwise fun r s => NamesApart r.name s.name := by
  rw [List.pairwise_flatMap]
  refine ⟨fun f _ => (leafRefs_names _ _ _ _ f.leafSpec).2, h.imp fun {f g} hfg r hr s hs => ?_⟩
  exact hfg.extend ((leafRefs_names _ _ _ _ f.leafSpec).1 r hr) ((leafRefs_names _ _ _ _ g.leafSpec).1 s hs)

/-- Distinct fields have distinct names. -/
theorem lowerFields_names {fields : Fields} {lowered : List FieldIR} (hid : fields.Identifiers)
    (h : lowerFields fields = .ok lowered) : (lowered.map FieldIR.name).Nodup := by
  rw [List.nodup_iff_pairwise_ne, List.pairwise_map]
  exact (lowerFields_apart hid h).imp fun {f g} (hapart : NamesApart _ _) (heq : f.name = g.name) =>
    Apart.ne hapart (congrArg (fun name => (columnNameForIdent name).toList) heq)

/-- The names of a column; a nested type has the names `child` gives. -/
def ColumnRef.columnNames (child : TypePath → List String) (r : ColumnRef) : List String :=
  match r.route with
  | .primitive _ => [r.name]
  | .nested nested => (child nested.ty).map (composeNestedName r.policy r.name)

/-- The names of a column extend its stem, and are distinct when those of its nested type are. -/
theorem ColumnRef.columnNames_nodup {child : TypePath → List String} {r : ColumnRef} (hpolicy : r.policy = .field)
    (hchild : ∀ nested, r.route = .nested nested → (child nested.ty).Nodup) :
    (∀ n ∈ r.columnNames child, NameExtends r.name n) ∧ (r.columnNames child).Nodup := by
  obtain ⟨name, policy, route, walk, carried⟩ := r
  have hpolicy : policy = .field := hpolicy
  subst hpolicy
  cases route with
  | primitive leaf =>
    refine ⟨fun n hn => ?_, List.nodup_singleton name⟩
    rw [List.mem_singleton.mp hn]
    exact Extends.refl '.' _
  | nested nested =>
    refine ⟨fun n hn => ?_, (hchild nested rfl).map fun a b hab => (String.append_right_inj _).mp hab⟩
    obtain ⟨inner, -, rfl⟩ := List.mem_map.mp hn
    exact NameExtends.dot name inner

/-- Stems apart give distinct names. -/
theorem columnNames_nodup {child : TypePath → List String} {refs : List ColumnRef} (hpolicy : ∀ r ∈ refs, r.policy = .field)
    (hapart : refs.Pairwise fun r s => NamesApart r.name s.name)
    (hchild : ∀ r ∈ refs, ∀ nested, r.route = .nested nested → (child nested.ty).Nodup) :
    (refs.flatMap (ColumnRef.columnNames child)).Nodup := by
  have hnames : ∀ r ∈ refs, (∀ n ∈ r.columnNames child, NameExtends r.name n) ∧ (r.columnNames child).Nodup :=
    fun r hr => r.columnNames_nodup (hpolicy r hr) (hchild r hr)
  rw [List.nodup_iff_pairwise_ne, List.pairwise_flatMap]
  refine ⟨fun r hr => (hnames r hr).2, hapart.imp_of_mem fun {r s} hr hs hrs n hn m hm heq => ?_⟩
  exact (hrs.extend ((hnames r hr).1 n hn) ((hnames s hs).1 m hm)).ne (congrArg String.toList heq)

section

variable {tr : Traits} {spec : TypePath → RowSpec}

theorem ColumnRef.row_columnNames (r : ColumnRef) : (r.row tr spec).columns.map ColumnSpec.name =
    r.columnNames fun ty => (spec ty).columns.map ColumnSpec.name := by
  obtain ⟨name, policy, route, walk, carried⟩ := r
  show ((leafRow tr spec route carried policy name walk.depth).columns.map (ColumnSpec.under walk)).map ColumnSpec.name = _
  cases route with
  | primitive leaf => rfl
  | nested nested =>
    show (((spec nested.ty).columns.map _).map _).map _ = ((spec nested.ty).columns.map _).map _
    rw [List.map_map, List.map_map, List.map_map]
    rfl

theorem structRow_columnNames (refs : List ColumnRef) : (structRow tr spec refs).columns.map ColumnSpec.name =
    refs.flatMap (ColumnRef.columnNames fun ty => (spec ty).columns.map ColumnSpec.name) := by
  show (RowSpec.concat (refs.map (ColumnRef.row tr spec))).columns.map _ = _
  rw [RowSpec.concat_columns, List.map_flatMap, List.flatMap_map]
  exact congrArg (List.flatMap · refs) (funext ColumnRef.row_columnNames)

end

end DfDerive
