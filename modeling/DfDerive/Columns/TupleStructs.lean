/-
  DfDerive.Columns.TupleStructs — a tuple below wrappers, and a tuple struct below the same wrappers.

  `W<(A, B, ..)>` is projected in place, `W<P>` of the derived `struct P(A, B, ..)` goes through
  the batch of `P` and is put back where its elements were.
  - `TupleField.of_lowered`, `TupleField.struct_accepted`: where the tuple is accepted, so are
    `P` and the field of type `W<P>`.
  - `tupleField_as_struct`: two structs that differ in such a field give the same frames, or
    both fail.
-/

import DfDerive.Columns.Scalars
import DfDerive.Derived.Batches
import DfDerive.Spec.Alike

namespace DfDerive

open Lib

/-! ## The tuple struct -/

/-- An accepted field of a tuple below wrappers. -/
structure TupleField where
  stack : List RawWrapper
  types : List RustType
  name : String
  fieldIndex : Option Nat
  elements : List TupleElement
  lowered : lowerField ⟨.mk stack (.tuple types), .include .default⟩ name fieldIndex =
    .ok (some ⟨name, fieldIndex, .tuple elements, normalizeWrappers (peelTypeWrappers stack).wrappers,
      (peelTypeWrappers stack).outerSmartPtrDepth, .field⟩)

/-- A field of a tuple struct without attributes. -/
def plainField (ty : RustType) : FieldDecl := ⟨ty, .include .default⟩

/-- The elements from the position `index` on as the fields of a tuple struct. -/
def elementFields (index : Nat) : List TupleElement → List FieldIR
  | [] => []
  | .mk leafSpec shape outerSmartPtrDepth :: elements =>
    ⟨s!"field_{index}", some index, leafSpec, shape, outerSmartPtrDepth, .field⟩ :: elementFields (index + 1) elements

mutual
/-- The name of a field is in the errors of its leaf only. -/
theorem defaultLeafForBase_renamed {field field' : String} {canAddAsBinary canAddAsBinary' : Bool} : ∀ {base : AnalyzedBase}
    {leafSpec : LeafSpec}, defaultLeafForBase field canAddAsBinary base = .ok leafSpec →
      defaultLeafForBase field' canAddAsBinary' base = .ok leafSpec
  | .leaf base, _, h => by cases base <;> cases h <;> rfl
  | .tuple elements, _, h => by
    obtain ⟨lowered, hlowered, hok⟩ := bind_eq_ok.mp h
    cases hok
    exact bind_eq_ok.mpr ⟨lowered, analyzedToTupleElements_renamed hlowered, rfl⟩

theorem analyzedToTupleElement_renamed {field field' : String} : ∀ {analyzed : AnalyzedType} {element : TupleElement},
    analyzedToTupleElement field analyzed = .ok element → analyzedToTupleElement field' analyzed = .ok element
  | .mk base wrappers depth, _, h => by
    obtain ⟨leafSpec, hleaf, hok⟩ := bind_eq_ok.mp h
    cases hok
    exact bind_eq_ok.mpr ⟨leafSpec, defaultLeafForBase_renamed hleaf, rfl⟩

theorem analyzedToTupleElements_renamed {field field' : String} : ∀ {analyzed : List AnalyzedType}
    {elements : List TupleElement}, analyzedToTupleElements field analyzed = .ok elements →
      analyzedToTupleElements field' analyzed = .ok elements
  | [], _, h => by cases h; rfl
  | element :: rest, _, h => by
    obtain ⟨first, hfirst, h⟩ := bind_eq_ok.mp h
    obtain ⟨elements, hrest, hok⟩ := bind_eq_ok.mp h
    cases hok
    exact bind_eq_ok.mpr ⟨first, analyzedToTupleElement_renamed hfirst,
      bind_eq_ok.mpr ⟨elements, analyzedToTupleElements_renamed hrest, rfl⟩⟩
end

mutual
theorem rejectUnsupportedWrappedNestedTuples_renamed {field field' : String} : ∀ {analyzed : AnalyzedType},
    rejectUnsupportedWrappedNestedTuples field analyzed = .ok () → rejectUnsupportedWrappedNestedTuples field' analyzed = .ok ()
  | .mk (.leaf _) _ _, _ => rfl
  | .mk (.tuple _) _ _, h => rejectWrappedElements_renamed h

theorem rejectWrappedElements_renamed {field field' : String} {wrapped : Bool} : ∀ {analyzed : List AnalyzedType},
    rejectWrappedElements field wrapped analyzed = .ok () → rejectWrappedElements field' wrapped analyzed = .ok ()
  | [], _ => rfl
  | .mk base wrappers depth :: rest, h => by
    rw [rejectWrappedElements] at h ⊢
    split at h
    · cases h
    · rename_i hunwrapped
      obtain ⟨⟨⟩, hinner, h⟩ := bind_eq_ok.mp h
      rw [if_neg hunwrapped]
      exact bind_eq_ok.mpr ⟨(), rejectUnsupportedWrappedNestedTuples_renamed hinner, rejectWrappedElements_renamed h⟩
end

/-- The elements of an accepted tuple are accepted as the fields of a tuple struct. -/
theorem lowerUnnamedFields_elements {name : String} {wrapped : Bool} : ∀ {types : List RustType}
    {analyzed : List AnalyzedType}
    {elements : List TupleElement} (index : Nat), analyzeTypes types = .ok analyzed →
      rejectWrappedElements name wrapped analyzed = .ok () → analyzedToTupleElements name analyzed = .ok elements →
        lowerUnnamedFields index (types.map plainField) = .ok (elementFields index elements)
  | [], _, _, _, htypes, _, helements => by
    cases htypes
    cases helements
    rfl
  | type :: types, _, _, index, htypes, hreject, helements => by
    obtain ⟨⟨base, wrappers, depth⟩, hfirst, htypes⟩ := bind_eq_ok.mp htypes
    obtain ⟨analyzed, hrest, hok⟩ := bind_eq_ok.mp htypes
    cases hok
    obtain ⟨_, helement, helements⟩ := bind_eq_ok.mp helements
    obtain ⟨elements, hlowered, hok⟩ := bind_eq_ok.mp helements
    cases hok
    obtain ⟨leafSpec, hleaf, hok⟩ := bind_eq_ok.mp helement
    cases hok
    rw [rejectWrappedElements] at hreject
    split at hreject
    · cases hreject
    · obtain ⟨⟨⟩, hinner, hreject⟩ := bind_eq_ok.mp hreject
      have hfield : lowerField (plainField type) s!"field_{index}" (some index) =
          .ok (some ⟨s!"field_{index}", some index, leafSpec, normalizeWrappers wrappers, depth, .field⟩) :=
        bind_eq_ok.mpr ⟨_, hfirst, bind_eq_ok.mpr ⟨(), rejectUnsupportedWrappedNestedTuples_renamed hinner,
          bind_eq_ok.mpr ⟨leafSpec, defaultLeafForBase_renamed hleaf, rfl⟩⟩⟩
      exact bind_eq_ok.mpr ⟨_, hfield, bind_eq_ok.mpr
        ⟨_, lowerUnnamedFields_elements (index + 1) hrest hreject hlowered, rfl⟩⟩

/-- What an accepted field of a tuple is lowered to. -/
theorem tupleField_lowered {stack : List RawWrapper} {types : List RustType} {name : String} {fieldIndex : Option Nat}
    {field : FieldIR} (h : lowerField ⟨.mk stack (.tuple types), .include .default⟩ name fieldIndex = .ok (some field)) :
    ∃ analyzed elements, analyzeBaseType (.tuple types) = .ok (.tuple analyzed) ∧
      rejectWrappedElements name (hasSemanticWrappers (peelTypeWrappers stack).wrappers) analyzed = .ok () ∧
      analyzedToTupleElements name analyzed = .ok elements ∧
      field = ⟨name, fieldIndex, .tuple elements, normalizeWrappers (peelTypeWrappers stack).wrappers,
        (peelTypeWrappers stack).outerSmartPtrDepth, .field⟩ := by
  obtain ⟨_, hanalyzed, h⟩ := bind_eq_ok.mp h
  obtain ⟨b, hbase, hok⟩ := bind_eq_ok.mp (show _ = _ from (analyzeType.eq_1 stack (.tuple types)) ▸ hanalyzed)
  cases hok
  obtain ⟨analyzed, rfl, -⟩ := analyzeBaseType_tuple hbase
  obtain ⟨⟨⟩, hreject, h⟩ := bind_eq_ok.mp h
  obtain ⟨leafSpec, hleaf, hok⟩ := bind_eq_ok.mp h
  cases hok
  obtain ⟨elements, helements, hok⟩ := bind_eq_ok.mp (show defaultLeafForBase name true (.tuple analyzed) = _ from hleaf)
  cases hok
  exact ⟨analyzed, elements, hbase, hreject, helements, rfl⟩

namespace TupleField

variable (t : TupleField)

def field : FieldIR :=
  ⟨t.name, t.fieldIndex, .tuple t.elements, normalizeWrappers (peelTypeWrappers t.stack).wrappers,
    (peelTypeWrappers t.stack).outerSmartPtrDepth, .field⟩

/-- Every accepted field of a tuple is one. -/
theorem of_lowered {stack : List RawWrapper} {types : List RustType} {name : String} {fieldIndex : Option Nat}
    {field : FieldIR} (h : lowerField ⟨.mk stack (.tuple types), .include .default⟩ name fieldIndex = .ok (some field)) :
    ∃ t : TupleField, t.stack = stack ∧ t.types = types ∧ t.name = name ∧ t.fieldIndex = fieldIndex ∧ t.field = field := by
  obtain ⟨analyzed, elements, -, -, -, rfl⟩ := tupleField_lowered h
  exact ⟨⟨stack, types, name, fieldIndex, elements, h⟩, rfl, rfl, rfl, rfl, rfl⟩

/-- `struct P(A, B, ..)` -/
def tupleStruct (ident : String) : DerivedStruct where
  input := ⟨ident, .unnamed (t.types.map plainField)⟩
  identifiers := trivial
  fields := elementFields 0 t.elements
  lowered := by
    obtain ⟨analyzed, elements, hbase, hreject, helements, hfield⟩ := tupleField_lowered t.lowered
    obtain ⟨_, heq, htypes⟩ := analyzeBaseType_tuple hbase
    cases heq
    cases hfield
    exact lowerUnnamedFields_elements 0 htypes hreject helements

/-- The field with `P` in the place of the tuple. -/
def structField (ty : TypePath) : FieldIR := { t.field with leafSpec := .struct ty }

theorem struct_accepted (ty : TypePath) :
    lowerField ⟨.mk t.stack (.leaf (.struct ty)), .include .default⟩ t.name t.fieldIndex = .ok (some (t.structField ty)) :=
  rfl

end TupleField

/-! ## The columns of both -/

/-- A tuple as the tuple struct of its elements. -/
def asStruct : Value → Value
  | .tuple vs => .struct (vs.mapIdx fun i v => (toString i, v))
  | _ => .none

/-- A column of the tuple struct, and the column of the tuple in the field `column`, to which
    `v` is the way. -/
structure ColumnRef.Below (v : Walk) (column : String) (q r : ColumnRef) : Prop where
  name : r.name = column ++ "." ++ q.name
  inner : q.policy = .field
  outer : r.policy = .field
  route : r.route = q.route
  walk : r.walk = v.comp q.walk

theorem fieldName_dot (column name : String) (index : Nat) :
    fieldName (column ++ "." ++ name) index = column ++ "." ++ fieldName name index := by
  apply String.toList_inj.mp
  rw [fieldName_toList, String.toList_append, String.toList_append (s := column ++ "."), fieldName_toList, List.append_assoc]

theorem terminal_below (v w : Walk) (column name : String) (carried carried' : Bool) (leafSpec : LeafSpec) :
    List.Forall₂ (ColumnRef.Below v column)
      ((TerminalLeafSpec.new leafSpec).toList.map fun leaf => ⟨name, .field, leaf.route, w, carried⟩)
      ((TerminalLeafSpec.new leafSpec).toList.map fun leaf => ⟨column ++ "." ++ name, .field, leaf.route, v.comp w, carried'⟩) := by
  cases TerminalLeafSpec.new leafSpec with
  | none => exact .nil
  | some leaf => exact .cons ⟨rfl, rfl, rfl, rfl, rfl⟩ .nil

mutual
theorem elementsRefs_below (v w : Walk) (column name : String) (carried carried' : Bool) : ∀ (index : Nat)
    (elements : List TupleElement), List.Forall₂ (ColumnRef.Below v column) (elementsRefs w carried name index elements)
      (elementsRefs (v.comp w) carried' (column ++ "." ++ name) index elements)
  | _, [] => .nil
  | index, element :: elements => by
    rw [elementsRefs, elementsRefs, fieldName_dot]
    exact List.rel_append (elementRefs_below v w column (fieldName name index) carried carried' index element)
      (elementsRefs_below v w column name carried carried' (index + 1) elements)

theorem elementRefs_below (v w : Walk) (column name : String) (carried carried' : Bool) (index : Nat) :
    ∀ element : TupleElement, List.Forall₂ (ColumnRef.Below v column) (elementRefs w carried name index element)
      (elementRefs (v.comp w) carried' (column ++ "." ++ name) index element)
  | .mk leafSpec shape outerSmartPtrDepth => by
    rw [elementRefs, elementRefs, Walk.comp_assoc]
    exact leafRefs_below v _ column name _ _ leafSpec

theorem leafRefs_below (v w : Walk) (column name : String) (carried carried' : Bool) : ∀ leafSpec : LeafSpec,
    List.Forall₂ (ColumnRef.Below v column) (leafRefs w carried .field name leafSpec)
      (leafRefs (v.comp w) carried' .field (column ++ "." ++ name) leafSpec)
  | .tuple elements => elementsRefs_below v w column name carried carried' 0 elements
  | .numeric _ | .string | .bool | .dateTime _ | .naiveDateTime _ | .naiveDate | .naiveTime | .duration _ _
  | .decimal _ _ _ | .asString _ | .asStr _ | .binary | .struct _ | .generic _ =>
    terminal_below v w column name carried carried' _
end

/-- A field of the tuple struct reads the element of the tuple. -/
theorem value_asStruct (name : String) (index depth : Nat) (v : Value) :
    (FieldSource.mk name (some index) depth).value? (asStruct v) = projectValue index depth v := by
  cases v with
  | tuple vs => simp [FieldSource.value?, FieldSource.raw?, asStruct, projectValue, Function.comp_def]
  | _ => rfl

/-- The columns of the tuple struct below the field are the ones of the tuple. -/
theorem elementFields_below (w : Walk) (column : String) (carried : Bool) : ∀ (index : Nat) (elements : List TupleElement),
    List.Forall₂ (ColumnRef.Below (w.comp (.read fun v => some (asStruct v))) column)
      ((elementFields index elements).flatMap FieldIR.refs) (elementsRefs w carried column index elements)
  | _, [] => .nil
  | index, .mk leafSpec shape depth :: elements => by
    rw [elementFields, List.flatMap_cons, elementsRefs]
    refine List.rel_append ?_ (elementFields_below w column carried (index + 1) elements)
    have hwalk : w.comp (stepWalk ⟨index, depth⟩ shape) = (w.comp (.read fun v => some (asStruct v))).comp
        ((Walk.read (FieldSource.value? ⟨s!"field_{index}", some index, depth⟩)).comp (.word shape)) := by
      rw [Walk.comp_assoc, ← Walk.comp_assoc (.read _), Walk.read_comp_read _ _ rfl, stepWalk]
      refine congrArg (fun f => w.comp ((Walk.read f).comp (.word shape))) ?_
      funext v
      exact (value_asStruct s!"field_{index}" index depth v).symm
    have hname : fieldName column index = column ++ "." ++ columnNameForIdent s!"field_{index}" := by
      apply String.toList_inj.mp
      rw [fieldName_toList, String.toList_append, fieldIdent_toList]
      simp [String.toList_append]
    rw [elementRefs, hwalk, hname]
    exact leafRefs_below _ _ column _ _ _ leafSpec

/-- A leaf has a column at least. -/
theorem leafRefs_ne_nil {field : String} {canAddAsBinary : Bool} (w : Walk) (carried : Bool) (policy : NestedNamePolicy)
    (name : String) : ∀ {base : RustBase} {analyzed : AnalyzedBase} {leafSpec : LeafSpec},
      analyzeBaseType base = .ok analyzed → defaultLeafForBase field canAddAsBinary analyzed = .ok leafSpec →
        leafRefs w carried policy name leafSpec ≠ []
  | .leaf base, _, _, hbase, h => by
    cases hbase
    cases base <;> cases h <;> exact List.cons_ne_nil _ _
  | .tuple [], _, _, hbase, _ => by cases hbase
  | .tuple (.mk stack base :: types), _, _, hbase, h => by
    obtain ⟨_, hfirst, hbase⟩ := bind_eq_ok.mp hbase
    obtain ⟨analyzed, -, hok⟩ := bind_eq_ok.mp hbase
    cases hok
    obtain ⟨inner, hinner, hok⟩ := bind_eq_ok.mp hfirst
    cases hok
    obtain ⟨elements, helements, hok⟩ := bind_eq_ok.mp h
    cases hok
    obtain ⟨_, helement, helements⟩ := bind_eq_ok.mp helements
    obtain ⟨rest, -, hok⟩ := bind_eq_ok.mp helements
    cases hok
    obtain ⟨leafSpec, hleaf, hok⟩ := bind_eq_ok.mp helement
    cases hok
    exact List.append_ne_nil_of_left_ne_nil (leafRefs_ne_nil _ _ _ _ hinner hleaf) _

namespace TupleField

variable (t : TupleField)

/-- The way to the tuples of the field, as tuple structs. -/
def structWalk : Walk := t.field.walk.comp (.read fun v => some (asStruct v))

theorem refs_below (ident : String) : List.Forall₂ (ColumnRef.Below t.structWalk (columnNameForIdent t.name))
    (t.tupleStruct ident).refs t.field.refs :=
  elementFields_below t.field.walk _ t.field.wrapperShape.hasLeafOption 0 t.elements

/-- There is a column at least. -/
theorem refs_ne_nil (ident : String) : (t.tupleStruct ident).refs ≠ [] := by
  obtain ⟨analyzed, elements, hbase, -, helements, hfield⟩ := tupleField_lowered t.lowered
  have hleaf : defaultLeafForBase t.name true (.tuple analyzed) = .ok (.tuple t.elements) := by
    cases hfield
    exact bind_eq_ok.mpr ⟨_, helements, rfl⟩
  have hlen := (t.refs_below ident).length_eq
  intro hnil
  rw [hnil] at hlen
  exact leafRefs_ne_nil _ _ _ _ hbase hleaf (List.length_eq_zero_iff.mp hlen.symm)

/-- The rows differ in the field alone, where the second has the tuple structs of the tuples of
    the first. -/
structure Restructured (others : List FieldIR) (row row' : Value) : Prop where
  field : t.field.root.raw? row' = (t.field.root.raw? row).map (mapWord asStruct t.stack)
  others : ∀ f ∈ others, f.root.raw? row' = f.root.raw? row

/-- The tuples and the nested rows in them can be counted in an `IdxSize`, and no time of day
    is a leap second. -/
structure Plain (rows : List Value) : Prop where
  tuples : (rows.flatMap t.field.walk.leaves).length ≤ idxSizeMax
  elements : ∀ r ∈ t.field.refs, ∀ nested, r.route = .nested nested → (rows.flatMap r.walk.leaves).length ≤ idxSizeMax
  times : ∀ r ∈ t.field.refs, r.route = .primitive .naiveTime → ∀ row ∈ rows, r.walk.typed (PlainLeaf .naiveTime) row

theorem derefN_mapWord (f : Value → Value) (w : List RawWrapper) : ∀ (n : Nat) (v : Value),
    (mapWord f (List.replicate n .smartPtr ++ w) v).derefN n = (v.derefN n).map (mapWord f w)
  | 0, _ => rfl
  | n + 1, v => by
    rw [List.replicate_succ, List.cons_append]
    cases v with
    | ptr u => exact derefN_mapWord f w n u
    | _ => rfl

/-- The value of the field, its pointers removed. -/
theorem Restructured.value {t : TupleField} {others : List FieldIR} {row row' : Value}
    (h : t.Restructured others row row') :
    t.field.root.value? row' = (t.field.root.value? row).map (mapWord asStruct t.field.wrapperShape.word) := by
  have hpeeled := peelTypeWrappers_of t.stack
  have hword : t.field.wrapperShape.word = (peelTypeWrappers t.stack).wrappers := normalizeWrappers_word hpeeled.first
  have hfield := h.field
  rw [hpeeled.stack] at hfield
  rw [FieldSource.value?, FieldSource.value?, hfield, hword, Option.map_bind, Option.bind_map]
  exact congrArg _ (funext fun v => derefN_mapWord asStruct _ _ v)

theorem structWalk_alike {others : List FieldIR} {rows rows' : List Value}
    (h : List.Forall₂ (t.Restructured others) rows rows') :
    t.structWalk.Alike t.field.walk rows rows' := by
  have hnone : (some (mapWord asStruct t.field.wrapperShape.word .none)).getD Value.none = .none := by
    cases t.field.wrapperShape.word with
    | nil => rfl
    | cons s w => cases s <;> rfl
  rw [structWalk, FieldIR.walk, Walk.comp_assoc, ← Walk.word_mapWord, ← Walk.comp_assoc, Walk.read_comp_read _ _ hnone]
  exact Walk.Alike.read _ (h.imp fun _ _ hrow => (hrow.value.trans Option.map_eq_bind).symm)

end TupleField

/-! ## Agreement -/

section

variable {tr : Traits} {spec : TypePath → RowSpec} {rows rows' : List Value}

theorem positionsFit_of_length {us : List Value} (h : us.length ≤ idxSizeMax) (carried : Bool) :
    PositionsFit carried us := by
  intro _
  omega

/-- What is read at the tuples themselves: a column of the tuple under the name of the field,
    and that column below a field of the tuple struct's type. -/
theorem leafRow_agrees {route : TerminalLeafRoute} {walk : Walk} {us : List Value} (column name : String)
    (above carried carried' : Bool) (depth : Nat)
    (ht : ∀ u ∈ us, walk.typed (leafRow tr spec route carried .field name walk.depth).typed u)
    (hplain : ∀ leaf, route = .primitive leaf → ∀ u ∈ us, ∀ x ∈ walk.leaves u, PlainLeaf leaf x)
    (htuples : us.length ≤ idxSizeMax)
    (hleaves : ∀ nested, route = .nested nested → (us.flatMap walk.leaves).length ≤ idxSizeMax) :
    ((leafRow tr spec route carried' .field (column ++ "." ++ name) depth).under walk).Agrees
      (nestedRow above .field column (ColumnRef.row tr spec ⟨name, .field, route, walk, carried⟩)) us us := by
  have haccepts : ∀ row row' : RowSpec, (row.Accepts (us.flatMap walk.leaves) ↔ row'.Accepts (us.flatMap walk.leaves)) →
      ((row.under walk).Accepts us ↔ (nestedRow above .field column (row'.under walk)).Accepts us) := by
    intro row row' hrows
    rw [nestedRow_accepts, RowSpec.accepts_under, RowSpec.accepts_under, walk.fits_iff, walk.fits_iff row'.Accepts, hrows]
    exact (and_iff_right (positionsFit_of_length htuples above)).symm
  cases route with
  | primitive leaf =>
    refine ⟨?_, ht, Iff.rfl, haccepts _ _ Iff.rfl⟩
    have hcells : us.map (walk.cell (columnCell tr leaf depth)) = us.map (walk.cell (columnCell tr leaf walk.depth)) :=
      List.map_congr_left fun u hu => walk.cell_congr _ _ u fun x hx =>
        have hx := hplain leaf rfl u hu x hx
        (hx.columnCell_eq tr depth).trans (hx.columnCell_eq tr walk.depth).symm
    exact congrArg (fun cells => [((column ++ "." ++ name, wrapListLayers leaf.dtype walk.depth), cells)]) hcells
  | nested nested =>
    refine ⟨?_, ht, Iff.rfl, haccepts _ _ ?_⟩
    · show (((spec nested.ty).columns.map _).map _).map _ = ((((spec nested.ty).columns.map _).map _).map _).map _
      rw [List.map_map, List.map_map, List.map_map, List.map_map, List.map_map]
      refine List.map_congr_left fun c _ => ?_
      have hname : column ++ "." ++ name ++ "." ++ c.name = column ++ "." ++ (name ++ "." ++ c.name) := by
        simp only [String.append_assoc]
      exact congrArg (fun full => ((full, wrapListLayers c.dtype walk.depth), us.map (walk.cell c.cell))) hname
    · show (nestedRow carried' .field _ (spec nested.ty)).Accepts _ ↔ (nestedRow carried .field _ (spec nested.ty)).Accepts _
      rw [nestedRow_accepts, nestedRow_accepts]
      have hfit := positionsFit_of_length (hleaves nested rfl)
      exact and_congr_left fun _ => iff_of_true (hfit _) (hfit _)

/-- A column of the tuple and the column of the tuple struct it comes from. -/
theorem ColumnRef.Below.agrees {v w : Walk} {column : String} {q r : ColumnRef} (h : q.Below v column r)
    (halike : v.Alike w rows rows') (above : Bool) (ht : ∀ row ∈ rows, (r.row tr spec).typed row)
    (htimes : r.route = .primitive .naiveTime → ∀ row ∈ rows, r.walk.typed (PlainLeaf .naiveTime) row)
    (htuples : (rows.flatMap v.leaves).length ≤ idxSizeMax)
    (hleaves : ∀ nested, r.route = .nested nested → (rows.flatMap r.walk.leaves).length ≤ idxSizeMax) :
    (r.row tr spec).Agrees ((nestedRow above .field column (q.row tr spec)).under w) rows rows' := by
  obtain ⟨qname, qpolicy, route, walk, carried⟩ := q
  obtain ⟨rname, rpolicy, rroute, rwalk, carried'⟩ := r
  obtain rfl : rname = column ++ "." ++ qname := h.name
  obtain rfl : qpolicy = .field := h.inner
  obtain rfl : rpolicy = .field := h.outer
  obtain rfl : route = rroute := h.route.symm
  obtain rfl : rwalk = v.comp walk := h.walk
  have hplain : ∀ leaf, route = .primitive leaf → ∀ row ∈ rows, (v.comp walk).typed (PlainLeaf leaf) row := by
    rintro leaf rfl row hrow
    by_cases htime : leaf = .naiveTime
    · subst htime
      exact htimes rfl row hrow
    · exact Walk.typed_mono _ _ _ row (fun x hx => ⟨hx, fun h => absurd h htime⟩) (ht row hrow)
  have hleavesOf : rows.flatMap (v.comp walk).leaves = (rows'.flatMap w.leaves).flatMap walk.leaves := by
    rw [(halike.comp walk).flatMap_leaves]
    exact List.flatMap_assoc.symm
  have hinner : ∀ row' ∈ rows', w.typed (walk.typed (leafRow tr spec route carried .field qname walk.depth).typed) row' := by
    cases route <;> exact halike.typed ht
  have hat : ∀ u ∈ rows'.flatMap w.leaves, walk.typed (leafRow tr spec route carried .field qname walk.depth).typed u := by
    intro u hu
    obtain ⟨row', hrow', hu⟩ := List.mem_flatMap.mp hu
    exact w.typed_leaves _ row' (hinner row' hrow') u hu
  have hrow : ColumnRef.row tr spec ⟨column ++ "." ++ qname, .field, route, v.comp walk, carried'⟩ =
      ((leafRow tr spec route carried' .field (column ++ "." ++ qname) (v.comp walk).depth).under walk).under v :=
    RowSpec.under_comp v walk _
  rw [hrow] at ht ⊢
  refine (RowSpec.Agrees.under halike _ ht).trans (RowSpec.Agrees.along ?_ hinner)
  refine leafRow_agrees column qname above carried carried' _ hat (fun leaf hroute u hu x hx => ?_) ?_ ?_
  · have hmem : x ∈ rows.flatMap (v.comp walk).leaves := by
      rw [hleavesOf]
      exact List.mem_flatMap.mpr ⟨u, hu, hx⟩
    obtain ⟨row, hrow, hmem⟩ := List.mem_flatMap.mp hmem
    exact (v.comp walk).typed_leaves _ row (hplain leaf hroute row hrow) x hmem
  · rw [← halike.flatMap_leaves]
    exact htuples
  · rw [← hleavesOf]
    exact hleaves

end

section

variable {env : Env} {spec : TypePath → RowSpec} {rows : List Value}

/-- Below the field, the columns of the tuple struct side by side are the columns of its row type. -/
theorem structRow_nested_agrees {refs : List ColumnRef} (hne : refs ≠ [])
    (hnames : (∀ r ∈ refs, (r.row env.traits spec).valid) →
      ((structRow env.traits spec refs).columns.map ColumnSpec.name).Nodup)
    (above : Bool) (column : String) (f : Value → Option Value) (shape : WrapperShape)
    (ht : ∀ r ∈ refs, ∀ row ∈ rows, ((Walk.read f).comp (.word shape)).typed (r.row env.traits spec).typed row) :
    (RowSpec.concat (refs.map fun r =>
        (nestedRow above .field column (r.row env.traits spec)).under ((Walk.read f).comp (.word shape)))).Agrees
      (RowSpec.concat [(nestedRow above .field column (structRow env.traits spec refs)).under
        ((Walk.read f).comp (.word shape))]) rows rows where
  contents := by
    rw [RowSpec.concat_contents, RowSpec.concat_contents, List.flatMap_map, List.flatMap_singleton]
    show refs.flatMap _ = ((((RowSpec.concat (refs.map (ColumnRef.row env.traits spec))).columns).map _).map _).map _
    rw [RowSpec.concat_columns, List.flatMap_map, List.map_flatMap, List.map_flatMap, List.map_flatMap]
    rfl
  typed row hrow := by
    obtain ⟨r, hr⟩ := List.exists_mem_of_ne_nil refs hne
    obtain ⟨x, hx, -⟩ := ht r hr row hrow
    have hword : HasWord (fun u => ∀ r ∈ refs, (r.row env.traits spec).typed u) shape.word x := by
      refine hasWord_forall hne fun r hr => ?_
      obtain ⟨y, hy, hword⟩ := ht r hr row hrow
      cases hx.symm.trans hy
      exact hword
    rw [RowSpec.concat_typed, List.forall_mem_singleton]
    exact ⟨x, hx, hword.mono fun u hu => structRow_typed.mpr hu⟩
  valid := by
    rw [RowSpec.concat_valid, RowSpec.concat_valid, List.forall_mem_map, List.forall_mem_singleton]
    show (∀ r ∈ refs, (r.row env.traits spec).valid) ↔ (structRow env.traits spec refs).valid
    rw [structRow_valid]
    exact ⟨fun h => ⟨h, hnames h⟩, fun h => h.1⟩
  accepts := by
    rw [RowSpec.concat_accepts, RowSpec.concat_accepts, List.forall_mem_map, List.forall_mem_singleton]
    have haccepts : ∀ row : RowSpec, ((nestedRow above .field column row).under ((Walk.read f).comp (.word shape))).Accepts rows ↔
        ((Walk.read f).comp (.word shape)).fits (PositionsFit above) rows ∧
          row.Accepts (rows.flatMap ((Walk.read f).comp (.word shape)).leaves) := by
      intro row
      rw [RowSpec.accepts_under, Walk.fits_iff, nestedRow_accepts, Walk.fits_iff _ (PositionsFit above), and_assoc]
    rw [haccepts, structRow_accepts]
    simp only [haccepts]
    obtain ⟨r, hr⟩ := List.exists_mem_of_ne_nil refs hne
    exact ⟨fun h => ⟨(h r hr).1, fun r hr => (h r hr).2⟩, fun h r hr => ⟨h.1, h.2 r hr⟩⟩

/-- The columns of a tuple field agree with the column of the tuple struct's type. -/
theorem TupleField.agrees (t : TupleField) (ident : String) {ty : TypePath} (hm : ∀ ty, Models (env.impl ty) (spec ty))
    (hspec : spec ty = structRow env.traits spec (t.tupleStruct ident).refs) {others : List FieldIR} {rows' : List Value}
    (hrows : List.Forall₂ (t.Restructured others) rows rows') (hplain : t.Plain rows)
    (ht : ∀ r ∈ t.field.refs, ∀ row ∈ rows, (r.row env.traits spec).typed row) :
    (RowSpec.concat (t.field.refs.map (ColumnRef.row env.traits spec))).Agrees
      (RowSpec.concat ((t.structField ty).refs.map (ColumnRef.row env.traits spec))) rows rows' := by
  have hbelow := t.refs_below ident
  have halike := t.structWalk_alike hrows
  have htuples : (rows.flatMap t.structWalk.leaves).length ≤ idxSizeMax := by
    have hlen : (rows.flatMap t.structWalk.leaves).length = (rows.flatMap t.field.walk.leaves).length := by
      show (rows.flatMap fun row => (t.field.walk.leaves row).flatMap fun u => [asStruct u]).length = _
      rw [← List.flatMap_assoc, ← List.map_eq_flatMap, List.length_map]
    rw [hlen]
    exact hplain.tuples
  have hcolumns : List.Forall₂ (fun q r => (r.row env.traits spec).Agrees ((nestedRow t.field.wrapperShape.hasLeafOption .field
      (columnNameForIdent t.name) (q.row env.traits spec)).under t.field.walk) rows rows') (t.tupleStruct ident).refs
      t.field.refs := by
    refine (forall₂_and_right hbelow fun r hr => hr).imp fun q r hqr => ?_
    obtain ⟨hr, hqr⟩ := hqr
    exact hqr.agrees halike _ (ht r hr) (hplain.times r hr) htuples (hplain.elements r hr)
  have hlists : List.Forall₂ (fun a b => RowSpec.Agrees a b rows rows') (t.field.refs.map (ColumnRef.row env.traits spec))
      ((t.tupleStruct ident).refs.map fun q => (nestedRow t.field.wrapperShape.hasLeafOption .field
        (columnNameForIdent t.name) (q.row env.traits spec)).under t.field.walk) := by
    rw [List.forall₂_map_left_iff, List.forall₂_map_right_iff]
    exact hcolumns.flip
  have hpolicy : ∀ q ∈ (t.tupleStruct ident).refs, q.policy = .field := by
    intro q hq
    obtain ⟨r, -, hqr⟩ := exists_related hbelow q hq
    exact hqr.inner
  have htyped : ∀ q ∈ (t.tupleStruct ident).refs, ∀ row ∈ rows', t.field.walk.typed (q.row env.traits spec).typed row := by
    intro q hq
    obtain ⟨r, -, hqr⟩ := exists_related hcolumns q hq
    exact hqr.typed
  refine (RowSpec.Agrees.concat hlists).trans ?_
  have hstruct : (t.structField ty).refs = [⟨columnNameForIdent t.name, .field, .nested (.struct ty), t.field.walk,
      t.field.wrapperShape.hasLeafOption⟩] := rfl
  have hrow : ColumnRef.row env.traits spec ⟨columnNameForIdent t.name, .field, .nested (.struct ty), t.field.walk,
      t.field.wrapperShape.hasLeafOption⟩ = (nestedRow t.field.wrapperShape.hasLeafOption .field (columnNameForIdent t.name)
        (structRow env.traits spec (t.tupleStruct ident).refs)).under t.field.walk := by
    rw [← hspec]
    rfl
  rw [hstruct, List.map_singleton, hrow]
  exact structRow_nested_agrees (t.refs_ne_nil ident) ((t.tupleStruct ident).names_nodup hpolicy hm) _ _ _ _ htyped

/-! ## Other fields -/

/-- The columns of a field start from its value. -/
theorem FieldIR.refs_walk {field : FieldIR} (h : field.Projectable) :
    ∀ r ∈ field.refs, ∃ w, r.walk = (Walk.read field.root.value?).comp w := by
  obtain ⟨name, fieldIndex, leafSpec, shape, depth, policy⟩ := field
  intro r hr
  cases leafSpec with
  | tuple elements =>
    have hrefs : r ∈ elementsRefs _ _ _ 0 elements := hr
    rw [elementsRefs_eq _ _ _ (h.elements elements rfl)] at hrefs
    obtain ⟨l, -, rfl⟩ := List.mem_map.mp hrefs
    exact ⟨_, Walk.comp_assoc _ _ _⟩
  | _ =>
    rw [List.mem_singleton.mp hr]
    exact ⟨_, rfl⟩

/-- Fields read alike have the same columns. -/
theorem fields_agree {rows' : List Value} : ∀ {fields : List FieldIR}, (∀ f ∈ fields, f.Projectable) →
    (∀ f ∈ fields, List.Forall₂ (fun row row' => f.root.value? row = f.root.value? row') rows rows') →
      (∀ r ∈ fields.flatMap FieldIR.refs, ∀ row ∈ rows, (r.row env.traits spec).typed row) →
        (RowSpec.concat ((fields.flatMap FieldIR.refs).map (ColumnRef.row env.traits spec))).Agrees
          (RowSpec.concat ((fields.flatMap FieldIR.refs).map (ColumnRef.row env.traits spec))) rows rows' := by
  intro fields hproj hsame ht
  refine RowSpec.Agrees.concat ?_
  rw [List.forall₂_map_left_iff, List.forall₂_map_right_iff, List.forall₂_same]
  intro r hr
  obtain ⟨f, hf, hrf⟩ := List.mem_flatMap.mp hr
  obtain ⟨w, hw⟩ := f.refs_walk (hproj f hf) r hrf
  have halike : r.walk.Alike r.walk rows rows' := by
    rw [hw]
    exact Walk.Alike.read w (hsame f hf)
  exact RowSpec.Agrees.under halike _ (ht r hr)

/-! ## Two structs -/

/-- The path names the struct, where every type follows its reference. -/
structure Env.Declares (env : Env) (spec : TypePath → RowSpec) (ty : TypePath) (s : DerivedStruct) (typeName : String) :
    Prop where
  models : ∀ ty, Models (env.impl ty) (spec ty)
  impl : env.impl ty = generateImpl env s.ir typeName
  spec : spec ty = structRow env.traits spec s.refs

end

/-- Two structs that differ in the type of one field. -/
structure Retyped (field field' : FieldIR) where
  host : DerivedStruct
  other : DerivedStruct
  before : List FieldIR
  after : List FieldIR
  host_fields : host.fields = before ++ field :: after
  other_fields : other.fields = before ++ field' :: after

section

variable {env : Env} {spec : TypePath → RowSpec} {rows rows' : List Value}

/-- The row types of the two structs agree. -/
theorem Retyped.agrees {t : TupleField} {ty : TypePath} {ident typeName : String}
    (henv : env.Declares spec ty (t.tupleStruct ident) typeName) (s : Retyped t.field (t.structField ty))
    (ht : ∀ row ∈ rows, (structRow env.traits spec s.host.refs).typed row)
    (hrows : List.Forall₂ (t.Restructured (s.before ++ s.after)) rows rows') (hplain : t.Plain rows) :
    (structRow env.traits spec s.host.refs).Agrees (structRow env.traits spec s.other.refs) rows rows' := by
  have hhost : s.host.refs = s.before.flatMap FieldIR.refs ++ (t.field.refs ++ s.after.flatMap FieldIR.refs) := by
    rw [DerivedStruct.refs, s.host_fields, List.flatMap_append, List.flatMap_cons]
  have hother : s.other.refs = s.before.flatMap FieldIR.refs ++ ((t.structField ty).refs ++ s.after.flatMap FieldIR.refs) := by
    rw [DerivedStruct.refs, s.other_fields, List.flatMap_append, List.flatMap_cons]
  have htyped : ∀ r ∈ s.host.refs, ∀ row ∈ rows, (r.row env.traits spec).typed row :=
    fun r hr row hrow => structRow_typed.mp (ht row hrow) r hr
  rw [hhost] at htyped
  obtain ⟨hbefore, htyped⟩ := List.forall_mem_append.mp htyped
  obtain ⟨hfield, hafter⟩ := List.forall_mem_append.mp htyped
  have hproj : ∀ f ∈ s.before ++ s.after, f.Projectable := by
    intro f hf
    refine lowerFields_projectable s.host.lowered f ?_
    rw [s.host_fields]
    rcases List.mem_append.mp hf with hf | hf
    · exact List.mem_append_left _ hf
    · exact List.mem_append_right _ (List.mem_cons_of_mem _ hf)
  have hsame : ∀ f ∈ s.before ++ s.after, List.Forall₂ (fun row row' => f.root.value? row = f.root.value? row') rows rows' :=
    fun f hf => hrows.imp fun row row' hrow => congrArg (Option.bind · _) (hrow.others f hf).symm
  have hconcat := (fields_agree (fun f hf => hproj f (List.mem_append_left _ hf))
    (fun f hf => hsame f (List.mem_append_left _ hf)) hbefore).append
    ((t.agrees ident henv.models henv.spec hrows hplain hfield).append
      (fields_agree (fun f hf => hproj f (List.mem_append_right _ hf))
        (fun f hf => hsame f (List.mem_append_right _ hf)) hafter))
  rw [← List.map_append, ← List.map_append, ← List.map_append, ← List.map_append, ← hhost, ← hother] at hconcat
  exact hconcat.structRow

end

/-- A field of type `W<(A, B, ..)>` and a field of type `W<P>` of the derived `struct P(A, B, ..)`:
    the second is accepted where the first is, and the structs around them have the same schema
    and, on rows with the same elements, give the same frames or both an error. -/
theorem tupleField_as_struct (t : TupleField) {ty : TypePath} {ident typeName : String} {env : Env}
    {spec : TypePath → RowSpec} (henv : env.Declares spec ty (t.tupleStruct ident) typeName)
    (s : Retyped t.field (t.structField ty)) (name name' : String) :
    lowerField ⟨.mk t.stack (.leaf (.struct ty)), .include .default⟩ t.name t.fieldIndex = .ok (some (t.structField ty)) ∧
    Run.Agree (· = ·) (generateImpl env s.host.ir name).schema (generateImpl env s.other.ir name').schema ∧
    ∀ rows rows', (∀ row ∈ rows, (structRow env.traits spec s.host.refs).typed row) →
      List.Forall₂ (t.Restructured (s.before ++ s.after)) rows rows' → t.Plain rows →
        Run.Agree DataFrame.Same ((generateImpl env s.host.ir name).columnarFromRefs rows)
            ((generateImpl env s.other.ir name').columnarFromRefs rows') ∧
          Run.Agree DataFrame.Same ((generateImpl env s.host.ir name).toDataFrameVec rows)
            ((generateImpl env s.other.ir name').toDataFrameVec rows') := by
  have hhost : Models (generateImpl env s.host.ir name) (structRow env.traits spec s.host.refs) :=
    generateImpl_models (s.host.refersTo henv.models)
  have hother : Models (generateImpl env s.other.ir name') (structRow env.traits spec s.other.refs) :=
    generateImpl_models (s.other.refersTo henv.models)
  refine ⟨t.struct_accepted ty, ?_, fun rows rows' ht hrows hplain => ?_⟩
  · have hempty : (structRow env.traits spec s.host.refs).Agrees (structRow env.traits spec s.other.refs) [] [] :=
      s.agrees henv nofun .nil ⟨Nat.zero_le _, fun _ _ _ _ => Nat.zero_le _, fun _ _ _ => nofun⟩
    refine hhost.schema.agree hother.schema hempty.valid fun a b ha hb => ?_
    rw [ha, hb]
    exact hempty.entries
  · have hframes := hhost.agree hother (s.agrees henv ht hrows hplain) hrows.length_eq ht
    refine ⟨hframes, ?_⟩
    rw [hhost.toDataFrameVec, hother.toDataFrameVec, hhost.direct, hother.direct]
    exact hframes

/-- `marks: Option<Vec<(bool, Option<bool>)>>` -/
def marksTuple : TupleField :=
  ⟨[.option, .vec], [.mk [] (.leaf .bool), .mk [.option] (.leaf .bool)], "marks", none,
    [.mk .bool (.leaf .bare) 0, .mk .bool (normalizeWrappers [.option]) 0], rfl⟩

/-- `struct Mark(bool, Option<bool>);` -/
def markStruct : DerivedStruct := marksTuple.tupleStruct "Mark"

def markTree : TypeTree := .derived markStruct "Mark" fun _ => .unit

/-- `struct Page { marks: Option<Vec<(bool, Option<bool>)>> }` and `struct Page { marks: Option<Vec<Mark>> }` -/
def pages : Retyped marksTuple.field (marksTuple.structField "Mark") where
  host := ⟨⟨"Page", .named [("marks", ⟨.mk [.option, .vec] (.tuple marksTuple.types), .include .default⟩)]⟩,
    ⟨List.nodup_singleton _, by decide⟩, [marksTuple.field], rfl⟩
  other := ⟨⟨"Page", .named [("marks", ⟨.mk [.option, .vec] (.leaf (.struct "Mark")), .include .default⟩)]⟩,
    ⟨List.nodup_singleton _, by decide⟩, [marksTuple.structField "Mark"], rfl⟩
  before := []
  after := []
  host_fields := rfl
  other_fields := rfl

def pageEnv : Env := ⟨brokenTraits, fun _ => markTree.impl brokenTraits⟩

theorem pageEnv_declares : pageEnv.Declares (fun _ => markTree.spec brokenTraits) "Mark" markStruct "Mark" where
  models _ := markTree.models brokenTraits
  impl := rfl
  spec := rfl

/-- The rows of `marks` with a `Mark` for every tuple. -/
def markRows : List Value :=
  [.struct [("marks", .some (.vec [asStruct (mark true .none), asStruct (mark false (.some (.scalar (.bool true))))]))],
    .struct [("marks", .none)]]

theorem marksRows_page : ∀ row ∈ marksRows,
    (structRow brokenTraits (fun _ => markTree.spec brokenTraits) pages.host.refs).typed row := by
  intro row hrow
  rcases List.mem_cons.mp hrow with rfl | hrow
  · refine ⟨⟨_, rfl, fun tuple htuple => ?_⟩, ⟨_, rfl, fun tuple htuple => ?_⟩, trivial⟩
    · rcases List.mem_cons.mp htuple with rfl | htuple
      · exact ⟨_, rfl, true, rfl⟩
      · rw [List.mem_singleton.mp htuple]
        exact ⟨_, rfl, false, rfl⟩
    · rcases List.mem_cons.mp htuple with rfl | htuple
      · exact ⟨_, rfl, trivial⟩
      · rw [List.mem_singleton.mp htuple]
        exact ⟨_, rfl, true, rfl⟩
  · rw [List.mem_singleton.mp hrow]
    exact ⟨⟨_, rfl, trivial⟩, ⟨_, rfl, trivial⟩, trivial⟩

/-- Both pages have the columns `marks.field_0` and `marks.field_1`, with the same cells. -/
theorem tupleField_as_struct_marks : ∃ df df',
    (generateImpl pageEnv pages.host.ir "Page").columnarFromRefs marksRows = .ok df ∧
    (generateImpl pageEnv pages.other.ir "Page").columnarFromRefs markRows = .ok df' ∧ df.Same df' ∧
    df.cells = [[.list [.val (.bool true), .val (.bool false)], .null], [.list [.null, .val (.bool true)], .null]] := by
  have hplain : marksTuple.Plain marksRows := by
    refine ⟨by decide, fun r hr nested hroute => ?_, fun r hr hroute => ?_⟩
    · rcases List.mem_cons.mp hr with rfl | hr
      · cases hroute
      · rw [List.mem_singleton.mp hr] at hroute
        cases hroute
    · rcases List.mem_cons.mp hr with rfl | hr
      · cases hroute
      · rw [List.mem_singleton.mp hr] at hroute
        cases hroute
  have hrows : List.Forall₂ (marksTuple.Restructured (pages.before ++ pages.after)) marksRows markRows :=
    .cons ⟨rfl, nofun⟩ (.cons ⟨rfl, nofun⟩ .nil)
  obtain ⟨df, hdf, hcells⟩ := Run.ok_of_map (r := (generateImpl pageEnv pages.host.ir "Page").columnarFromRefs marksRows)
    (f := DataFrame.cells)
    (b := [[.list [.val (.bool true), .val (.bool false)], .null], [.list [.null, .val (.bool true)], .null]]) rfl
  rcases ((tupleField_as_struct marksTuple pageEnv_declares pages "Page" "Page").2.2 marksRows markRows marksRows_page hrows
    hplain).1 with ⟨a, b, ha, hb, hsame⟩ | ⟨e, _, he, -⟩
  · cases hdf.symm.trans ha
    exact ⟨df, b, hdf, hb, hsame, hcells⟩
  · cases hdf.symm.trans he

end DfDerive
