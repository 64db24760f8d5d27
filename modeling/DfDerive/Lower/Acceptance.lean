/-
  DfDerive.Lower.Acceptance — which fields are accepted.

  A field is accepted when its tuples are sound (none is empty, none of two nested ones is
  wrapped) and its attribute applies to its type. `lowerField_include_ok` says so of every
  declared type, whatever its depth, and `field_accepted_iff` of fields as they are written:
  the type has a meaning, does not hold the struct itself, and passes. What is refused after
  the attributes and the type are read is refused under the field's name.
-/

import DfDerive.Lower.Accepted
import DfDerive.Lower.WrittenProofs
import DfDerive.TypeAnalysis.Meaning

namespace DfDerive

open Lib

/-! ## Types -/

mutual
/-- What holds of leaves, and of tuples when it holds of their elements, holds of types. -/
theorem RustType.elements_induction {P : RustType → Prop} (leaf : ∀ stack base, P (.mk stack (.leaf base)))
    (tuple : ∀ stack elements, (∀ e ∈ elements, P e) → P (.mk stack (.tuple elements))) : ∀ ty, P ty
  | .mk stack (.leaf base) => leaf stack base
  | .mk stack (.tuple elements) => tuple stack elements (elementsInduction leaf tuple elements)

theorem elementsInduction {P : RustType → Prop} (leaf : ∀ stack base, P (.mk stack (.leaf base)))
    (tuple : ∀ stack elements, (∀ e ∈ elements, P e) → P (.mk stack (.tuple elements))) :
    ∀ elements : List RustType, ∀ e ∈ elements, P e
  | [] => nofun
  | element :: elements =>
    List.forall_mem_cons.mpr ⟨RustType.elements_induction leaf tuple element, elementsInduction leaf tuple elements⟩
end

namespace RustType

/-- `t` is the type itself, or an element of a tuple in it at any depth. -/
inductive Within : RustType → RustType → Prop where
  | self {ty : RustType} : Within ty ty
  | element {stack : List RawWrapper} {elements : List RustType} {e t : RustType} (mem : e ∈ elements) (within : Within e t) :
      Within (.mk stack (.tuple elements)) t

theorem within_leaf {stack : List RawWrapper} {base : LeafBase} {P : RustType → Prop} :
    (∀ t, Within (.mk stack (.leaf base)) t → P t) ↔ P (.mk stack (.leaf base)) := by
  constructor
  · exact fun h => h _ .self
  · rintro h t ht
    cases ht
    exact h

theorem within_tuple {stack : List RawWrapper} {elements : List RustType} {P : RustType → Prop} :
    (∀ t, Within (.mk stack (.tuple elements)) t → P t) ↔
      P (.mk stack (.tuple elements)) ∧ ∀ e ∈ elements, ∀ t, Within e t → P t := by
  constructor
  · exact fun h => ⟨h _ .self, fun e he t ht => h t (.element he ht)⟩
  · rintro ⟨hself, heach⟩ t ht
    cases ht with
    | self => exact hself
    | element he ht => exact heach _ he t ht

/-- Nothing but pointers around the base. -/
def OnlyPointers (ty : RustType) : Prop := ∀ w ∈ ty.stack, w = .smartPtr

def IsTuple (ty : RustType) : Prop := ∃ elements, ty.base = .tuple elements

/-- The tuples of a type are not empty, and of two nested ones neither is wrapped. -/
structure TuplesSound (ty : RustType) : Prop where
  units : ∀ t, Within ty t → t.base ≠ .tuple []
  unwrapped : ∀ t, Within ty t → ∀ elements, t.base = .tuple elements → ∀ e ∈ elements, e.IsTuple →
    t.OnlyPointers ∧ e.OnlyPointers

/-- Every leaf has a leaf without an attribute. -/
def LeavesDefault (ty : RustType) : Prop :=
  ∀ t, Within ty t → ∀ base, t.base = .leaf base →
    base ≠ .borrowedBytes ∧ base ≠ .cowBytes ∧ base ≠ .borrowedSlice ∧ base ≠ .cowSlice

end RustType

/-! ## Attributes -/

/-- The bases an override is for. -/
def LeafOverride.Applies : LeafOverride → LeafBase → Prop
  | asStr, base => base = .string ∨ base = .borrowedStr ∨ base = .cowStr ∨ (∃ ty, base = .struct ty) ∨ ∃ i, base = .generic i
  | asString, base => base ≠ .stdDuration ∧ base ≠ .borrowedBytes ∧ base ≠ .cowBytes ∧ base ≠ .borrowedSlice ∧ base ≠ .cowSlice
  | decimal _ _, base => base = .decimal ∨ (∃ ty, base = .struct ty) ∨ ∃ i, base = .generic i
  | timeUnit _, base => base = .dateTimeTz ∨ base = .naiveDateTime ∨ base = .stdDuration ∨ base = .chronoDuration

/-- The types an attribute is for. -/
def FieldConversion.Applies : FieldConversion → RustType → Prop
  | default, ty => ty.LeavesDefault
  | leafOverride value, ty => ∃ base, ty.base = .leaf base ∧ value.Applies base
  | binary, ty => ty.base = .leaf .borrowedBytes ∨ ty.base = .leaf .cowBytes ∨
      (ty.base = .leaf (.numeric .u8) ∧ ty.stack.getLast? = some .vec)
  | .flatten _, ty => ((∃ s, ty.base = .leaf (.struct s)) ∨ ∃ i, ty.base = .leaf (.generic i)) ∧ ty.OnlyPointers

/-! ## Analysis -/

theorem analyzeTypes_ok : ∀ {tys : List RustType} {as : List AnalyzedType},
    analyzeTypes tys = .ok as ↔ List.Forall₂ (fun ty a => analyzeType ty = .ok a) tys as
  | [], as => by
    rw [analyzeTypes, List.forall₂_nil_left_iff]
    constructor
    · rintro ⟨⟩
      rfl
    · rintro rfl
      rfl
  | ty :: tys, as => by
    rw [analyzeTypes, bind_eq_ok, List.forall₂_cons_left_iff]
    constructor
    · rintro ⟨a, ha, h⟩
      obtain ⟨rest, hrest, hok⟩ := bind_eq_ok.mp h
      cases hok
      exact ⟨a, rest, ha, analyzeTypes_ok.mp hrest, rfl⟩
    · rintro ⟨a, rest, ha, hrest, rfl⟩
      exact ⟨a, ha, bind_eq_ok.mpr ⟨rest, analyzeTypes_ok.mpr hrest, rfl⟩⟩

theorem analyzeType_leaf {stack : List RawWrapper} {base : LeafBase} {a : AnalyzedType} :
    analyzeType (.mk stack (.leaf base)) = .ok a ↔
      a = .mk (.leaf base) (peelTypeWrappers stack).wrappers (peelTypeWrappers stack).outerSmartPtrDepth := by
  constructor
  · rintro ⟨⟩
    rfl
  · rintro rfl
    rfl

theorem analyzeBaseType_cons (element : RustType) (elements : List RustType) :
    analyzeBaseType (.tuple (element :: elements)) = (do .ok (.tuple (← analyzeTypes (element :: elements)))) := by
  simp only [analyzeBaseType, analyzeTypes, bind_assoc, ok_bind]

theorem analyzeType_tuple {stack : List RawWrapper} {elements : List RustType} {a : AnalyzedType} :
    analyzeType (.mk stack (.tuple elements)) = .ok a ↔
      ∃ as, elements ≠ [] ∧ List.Forall₂ (fun ty a => analyzeType ty = .ok a) elements as ∧
        a = .mk (.tuple as) (peelTypeWrappers stack).wrappers (peelTypeWrappers stack).outerSmartPtrDepth := by
  rw [analyzeType, bind_eq_ok]
  cases elements with
  | nil =>
    constructor
    · rintro ⟨_, h, -⟩
      cases h
    · rintro ⟨_, h, -⟩
      exact absurd rfl h
  | cons element elements =>
    rw [analyzeBaseType_cons]
    constructor
    · rintro ⟨base, h, hok⟩
      obtain ⟨as, has, hok'⟩ := bind_eq_ok.mp h
      cases hok'
      cases hok
      exact ⟨as, List.cons_ne_nil _ _, analyzeTypes_ok.mp has, rfl⟩
    · rintro ⟨as, -, has, rfl⟩
      exact ⟨.tuple as, bind_eq_ok.mpr ⟨as, analyzeTypes_ok.mpr has, rfl⟩, rfl⟩

theorem exists_forall₂ {α β : Type} {R : α → β → Prop} : ∀ {as : List α}, (∀ a ∈ as, ∃ b, R a b) ↔ ∃ bs, List.Forall₂ R as bs
  | [] => ⟨fun _ => ⟨[], .nil⟩, fun _ => nofun⟩
  | a :: as => by
    rw [List.forall_mem_cons, exists_forall₂]
    constructor
    · rintro ⟨⟨b, hb⟩, bs, hbs⟩
      exact ⟨b :: bs, .cons hb hbs⟩
    · rintro ⟨_, h⟩
      cases h with
      | cons hb hbs => exact ⟨⟨_, hb⟩, _, hbs⟩

/-- A type is analyzed unless a tuple in it is empty. -/
theorem analyzeType_units (ty : RustType) : (∃ a, analyzeType ty = .ok a) ↔ ∀ t, ty.Within t → t.base ≠ .tuple [] := by
  induction ty using RustType.elements_induction with
  | leaf stack base =>
    rw [RustType.within_leaf]
    exact ⟨fun _ => nofun, fun _ => ⟨_, analyzeType_leaf.mpr rfl⟩⟩
  | tuple stack elements ih =>
    rw [RustType.within_tuple, ← forall₂_congr ih, exists_forall₂]
    simp only [analyzeType_tuple]
    constructor
    · rintro ⟨_, as, hne, has, -⟩
      exact ⟨fun h => hne (RustBase.tuple.inj h), as, has⟩
    · rintro ⟨hne, as, has⟩
      exact ⟨_, as, fun h => hne (congrArg RustBase.tuple h), has, rfl⟩

section

variable {ty : RustType} {a : AnalyzedType}

theorem analyzeType_isTuple (h : analyzeType ty = .ok a) : a.base.isTuple = true ↔ ty.IsTuple := by
  obtain ⟨stack, base⟩ := ty
  cases base with
  | leaf base =>
    rw [analyzeType_leaf.mp h]
    exact ⟨nofun, fun ⟨_, h⟩ => nomatch h⟩
  | tuple elements =>
    obtain ⟨as, -, -, rfl⟩ := analyzeType_tuple.mp h
    exact ⟨fun _ => ⟨elements, rfl⟩, fun _ => rfl⟩

theorem peelTypeWrappers_nil (stack : List RawWrapper) : (peelTypeWrappers stack).wrappers = [] ↔ ∀ w ∈ stack, w = .smartPtr := by
  obtain ⟨hstack, hfirst⟩ := peelTypeWrappers_of stack
  constructor
  · intro hnil w hw
    rw [hstack, hnil, List.append_nil] at hw
    exact List.eq_of_mem_replicate hw
  · intro hall
    cases hkept : (peelTypeWrappers stack).wrappers with
    | nil => rfl
    | cons w ws =>
      have hw : w = .smartPtr := hall w (by rw [hstack, hkept]; simp)
      exact absurd (hw ▸ hkept) (hfirst ws)

theorem analyzeType_wrappers (h : analyzeType ty = .ok a) : a.wrappers = (peelTypeWrappers ty.stack).wrappers := by
  obtain ⟨stack, base⟩ := ty
  obtain ⟨_, -, hok⟩ := bind_eq_ok.mp h
  cases hok
  rfl

theorem analyzeType_bare (h : analyzeType ty = .ok a) : a.wrappers = [] ↔ ty.OnlyPointers := by
  rw [analyzeType_wrappers h]
  exact peelTypeWrappers_nil ty.stack

end

/-! ## Nested tuples -/

theorem forall_mem_forall₂ {α β : Type} {R : α → β → Prop} {P : α → Prop} {Q : β → Prop} {as : List α} {bs : List β}
    (h : List.Forall₂ R as bs) (hpq : ∀ a ∈ as, ∀ b, R a b → (P a ↔ Q b)) : (∀ a ∈ as, P a) ↔ ∀ b ∈ bs, Q b := by
  induction h with
  | nil => exact ⟨fun _ => nofun, fun _ => nofun⟩
  | cons hab _ ih =>
    rw [List.forall_mem_cons, List.forall_mem_cons, hpq _ List.mem_cons_self _ hab,
      ih fun a ha => hpq a (List.mem_cons_of_mem _ ha)]

theorem rejectWrappedElements_ok {field : String} {parentWrapped : Bool} : ∀ {as : List AnalyzedType},
    rejectWrappedElements field parentWrapped as = .ok () ↔ ∀ a ∈ as,
      (a.base.isTuple = true → parentWrapped = false ∧ a.wrappers = []) ∧ rejectUnsupportedWrappedNestedTuples field a = .ok ()
  | [] => ⟨fun _ => nofun, fun _ => rfl⟩
  | .mk base wrappers depth :: as => by
    rw [rejectWrappedElements, List.forall_mem_cons, ← rejectWrappedElements_ok]
    have hwrapped : (base.isTuple && (parentWrapped || hasSemanticWrappers wrappers)) = true ↔
        ¬ (base.isTuple = true → parentWrapped = false ∧ wrappers = []) := by
      cases base.isTuple <;> cases parentWrapped <;> simp [hasSemanticWrappers]
    split
    · rename_i h
      refine ⟨nofun, fun hc => absurd hc.1.1 (hwrapped.mp h)⟩
    · rename_i h
      have hbare : base.isTuple = true → parentWrapped = false ∧ wrappers = [] := by
        by_contra hnot
        exact h (hwrapped.mpr hnot)
      rw [bind_eq_ok]
      constructor
      · rintro ⟨⟨⟩, hinner, hrest⟩
        exact ⟨⟨hbare, hinner⟩, hrest⟩
      · rintro ⟨⟨-, hinner⟩, hrest⟩
        exact ⟨(), hinner, hrest⟩

/-- No two nested tuples are refused exactly when none is wrapped. -/
theorem rejectUnsupportedWrappedNestedTuples_ok {field : String} (ty : RustType) : ∀ a, analyzeType ty = .ok a →
    (rejectUnsupportedWrappedNestedTuples field a = .ok () ↔ ∀ t, ty.Within t → ∀ elements, t.base = .tuple elements →
      ∀ e ∈ elements, e.IsTuple → t.OnlyPointers ∧ e.OnlyPointers) := by
  induction ty using RustType.elements_induction with
  | leaf stack base =>
    intro a h
    rw [analyzeType_leaf.mp h, RustType.within_leaf]
    refine ⟨fun _ _ hbase => ?_, fun _ => rfl⟩
    cases hbase
  | tuple stack elements ih =>
    intro a h
    have hbare := analyzeType_bare h
    obtain ⟨as, -, has, rfl⟩ := analyzeType_tuple.mp h
    rw [rejectUnsupportedWrappedNestedTuples, rejectWrappedElements_ok, RustType.within_tuple]
    have heach : (∀ e ∈ elements, (e.IsTuple → (RustType.mk stack (.tuple elements)).OnlyPointers ∧ e.OnlyPointers) ∧
        ∀ t, e.Within t → ∀ inner, t.base = .tuple inner → ∀ e' ∈ inner, e'.IsTuple → t.OnlyPointers ∧ e'.OnlyPointers) ↔
        ∀ a ∈ as, (a.base.isTuple = true → hasSemanticWrappers (peelTypeWrappers stack).wrappers = false ∧ a.wrappers = []) ∧
          rejectUnsupportedWrappedNestedTuples field a = .ok () := by
      refine forall_mem_forall₂ has fun e he a ha => ?_
      rw [analyzeType_isTuple ha, analyzeType_bare ha, ih e he a ha, ← hbare]
      simp [hasSemanticWrappers, AnalyzedType.wrappers]
    rw [← heach]
    constructor
    · intro hall
      refine ⟨?_, fun e he => (hall e he).2⟩
      rintro inner ⟨⟩ e he
      exact (hall e he).1
    · rintro ⟨hself, hrest⟩ e he
      exact ⟨hself elements rfl e he, hrest e he⟩

/-! ## Default leaves -/

theorem defaultLeafForLeafBase_ok {field : String} {canAddAsBinary : Bool} {base : LeafBase} :
    (∃ leaf, defaultLeafForLeafBase field canAddAsBinary base = .ok leaf) ↔
      base ≠ .borrowedBytes ∧ base ≠ .cowBytes ∧ base ≠ .borrowedSlice ∧ base ≠ .cowSlice := by
  cases base <;> simp [defaultLeafForLeafBase]

theorem analyzedToTupleElements_ok {field : String} : ∀ {as : List AnalyzedType},
    (∃ elements, analyzedToTupleElements field as = .ok elements) ↔
      ∀ a ∈ as, ∃ leaf, defaultLeafForBase field false a.base = .ok leaf
  | [] => ⟨fun _ => nofun, fun _ => ⟨_, rfl⟩⟩
  | .mk base wrappers depth :: as => by
    rw [List.forall_mem_cons, ← analyzedToTupleElements_ok]
    constructor
    · rintro ⟨_, h⟩
      obtain ⟨first, hfirst, h⟩ := bind_eq_ok.mp h
      obtain ⟨rest, hrest, -⟩ := bind_eq_ok.mp h
      obtain ⟨leaf, hleaf, -⟩ := bind_eq_ok.mp hfirst
      exact ⟨⟨leaf, hleaf⟩, rest, hrest⟩
    · rintro ⟨⟨leaf, hleaf⟩, rest, hrest⟩
      have hleaf : defaultLeafForBase field false base = .ok leaf := hleaf
      refine ⟨.mk leaf (normalizeWrappers wrappers) depth :: rest, ?_⟩
      rw [analyzedToTupleElements, analyzedToTupleElement, hleaf, ok_bind, ok_bind, hrest, ok_bind]

theorem defaultLeafForBase_ok {field : String} (ty : RustType) : ∀ a, analyzeType ty = .ok a → ∀ canAddAsBinary,
    ((∃ leaf, defaultLeafForBase field canAddAsBinary a.base = .ok leaf) ↔ ty.LeavesDefault) := by
  induction ty using RustType.elements_induction with
  | leaf stack base =>
    intro a h canAddAsBinary
    rw [analyzeType_leaf.mp h, RustType.LeavesDefault, RustType.within_leaf]
    rw [AnalyzedType.base, defaultLeafForBase, defaultLeafForLeafBase_ok]
    refine ⟨fun hbase _ heq => ?_, fun h => h base rfl⟩
    cases heq
    exact hbase
  | tuple stack elements ih =>
    intro a h canAddAsBinary
    obtain ⟨as, -, has, rfl⟩ := analyzeType_tuple.mp h
    rw [RustType.LeavesDefault, RustType.within_tuple]
    have heach := forall_mem_forall₂ has fun e he a ha => (ih e he a ha false).symm
    constructor
    · rintro ⟨_, h⟩
      obtain ⟨lowered, hlowered, -⟩ := bind_eq_ok.mp h
      exact ⟨nofun, heach.mpr (analyzedToTupleElements_ok.mp ⟨lowered, hlowered⟩)⟩
    · rintro ⟨-, hrest⟩
      obtain ⟨lowered, hlowered⟩ := analyzedToTupleElements_ok.mpr (heach.mp hrest)
      exact ⟨.tuple lowered, bind_eq_ok.mpr ⟨lowered, hlowered, rfl⟩⟩

/-! ## Attributed leaves -/

section

variable {ty : RustType} {a : AnalyzedType} {field : String}

theorem analyzeType_leafBase (h : analyzeType ty = .ok a) (base : LeafBase) : a.base = .leaf base ↔ ty.base = .leaf base := by
  obtain ⟨stack, tyBase⟩ := ty
  cases tyBase with
  | leaf tyBase =>
    rw [analyzeType_leaf.mp h]
    simp [AnalyzedType.base, RustType.base]
  | tuple elements =>
    obtain ⟨as, -, -, rfl⟩ := analyzeType_tuple.mp h
    simp [AnalyzedType.base, RustType.base]

theorem parseLeafSpec_override (value : LeafOverride) (base : AnalyzedBase) :
    (∃ leaf, parseLeafSpec field (some value) base = .ok leaf) ↔ ∃ b, base = .leaf b ∧ value.Applies b := by
  cases base with
  | tuple elements =>
    constructor
    · rintro ⟨_, h⟩
      cases h
    · rintro ⟨_, h, -⟩
      cases h
  | leaf base =>
    have happlies : (∃ b, AnalyzedBase.leaf base = .leaf b ∧ value.Applies b) ↔ value.Applies base := by simp
    rw [happlies]
    cases value <;> cases base <;> simp [parseLeafSpec, rejectAttrsOnTuple, parseLeafAsString, displayBaseForAsString,
      parseLeafAsStr, parseLeafDecimal, parseLeafTimeUnit, LeafOverride.Applies]

/-- The wrapper next to the base is kept, unless it is a pointer. -/
theorem peelTypeWrappers_last (stack : List RawWrapper) :
    (peelTypeWrappers stack).wrappers.getLast? = some .vec ↔ stack.getLast? = some .vec := by
  obtain ⟨hstack, -⟩ := peelTypeWrappers_of stack
  cases hlast : (peelTypeWrappers stack).wrappers.getLast? with
  | none =>
    rw [List.getLast?_eq_none_iff.mp hlast, List.append_nil] at hstack
    refine ⟨nofun, fun h => ?_⟩
    rw [hstack] at h
    exact absurd (List.eq_of_mem_replicate (List.mem_of_getLast? h)) nofun
  | some w =>
    conv_rhs => rw [hstack, List.getLast?_append, hlast]
    rfl

theorem parseAsBinaryShape_iff (base : AnalyzedBase) (wrappers : List RawWrapper) :
    (∃ r, parseAsBinaryShape field base wrappers = .ok r) ↔ base = .leaf .borrowedBytes ∨ base = .leaf .cowBytes ∨
      (base = .leaf (.numeric .u8) ∧ wrappers.getLast? = some .vec) := by
  unfold parseAsBinaryShape
  split
  · simp
  · simp
  · simp
  · simp
  · cases wrappers.getLast? with
    | none => simp
    | some w =>
      cases w with
      | option =>
        by_cases hlen : wrappers.length = 1 <;> simp [hlen]
      | vec => simp
      | smartPtr => simp
  · rename_i hcow hborrowed _ _ hbytes
    constructor
    · rintro ⟨_, h⟩
      cases h
    · rintro (h | h | ⟨h, -⟩)
      · exact absurd h hborrowed
      · exact absurd h hcow
      · exact absurd h hbytes

theorem rejectInvalidFlattenField_ok {base : AnalyzedBase} {shape : WrapperShape} :
    rejectInvalidFlattenField field base shape = .ok () ↔
      ((∃ s, base = .leaf (.struct s)) ∨ ∃ i, base = .leaf (.generic i)) ∧ shape = .leaf .bare := by
  unfold rejectInvalidFlattenField
  split
  · simp
  · simp
  · rename_i hstruct hgeneric
    refine ⟨nofun, ?_⟩
    rintro ⟨⟨s, rfl⟩ | ⟨i, rfl⟩, rfl⟩
    · exact absurd rfl (hstruct s rfl)
    · exact absurd rfl (hgeneric i rfl)

end

/-! ## Errors -/

/-- The field an error is about. -/
def LowerError.field? : LowerError → Option String
  | unitField => none
  | unannotatedCowBytes field _ | unannotatedBorrowedBytes field _ | borrowedSlice field | cowSlice field
  | asStrWrongBase field | asStringStdDuration field | asStringBytes field | asStringSlice field | asStringTuple field
  | decimalWrongBase field | timeUnitNaiveDate field | timeUnitNaiveTime field | timeUnitWrongBase field
  | bareBinaryU8 field | binaryInnerOption field | binaryWrongBase field | binaryCowSlice field
  | binaryBorrowedSlice field | unsupportedTupleAttr field _ | unsupportedWrappedNestedTuple field
  | invalidFlattenField field => some field

def FieldAttrError.field? : FieldAttrError → Option String
  | malformed _ | decimal _ | timeUnitValue _ | flattenEmptyPrefix | flattenDuplicatePrefix _ _ | flattenUnknownKey
  | unknownKey => none
  | duplicateOverride field _ _ | overrideConflict field _ _ => some field

def FieldError.field? : FieldError → Option String
  | attrs e => e.field?
  | type _ => none
  | selfReference e => some e.field
  | lower e => e.field?

/-- Whatever the run refuses is refused under the name. -/
def RefusesAs {α : Type} (field : String) (r : Except LowerError α) : Prop := ∀ e, r = .error e → e.field? = some field

section

variable {field : String}

theorem RefusesAs.bind {α β : Type} {r : Except LowerError α} {f : α → Except LowerError β} (hr : RefusesAs field r)
    (hf : ∀ a, RefusesAs field (f a)) : RefusesAs field (r >>= f) := by
  intro e h
  cases r with
  | error e' => exact hr e (congrArg _ (Except.error.inj h))
  | ok a => exact hf a e h

theorem RefusesAs.ok {α : Type} (a : α) : RefusesAs field (.ok a) := nofun

theorem RefusesAs.error {α : Type} {e : LowerError} (h : e.field? = some field) :
    RefusesAs field (.error e : Except LowerError α) := by
  rintro _ ⟨⟩
  exact h

theorem defaultLeafForLeafBase_refusesAs (canAddAsBinary : Bool) (base : LeafBase) :
    RefusesAs field (defaultLeafForLeafBase field canAddAsBinary base) := by
  cases base <;> first | exact .ok _ | exact .error rfl

mutual
theorem defaultLeafForBase_refusesAs (canAddAsBinary : Bool) : ∀ base : AnalyzedBase,
    RefusesAs field (defaultLeafForBase field canAddAsBinary base)
  | .leaf base => defaultLeafForLeafBase_refusesAs canAddAsBinary base
  | .tuple elements => (analyzedToTupleElements_refusesAs elements).bind fun _ => .ok _

theorem analyzedToTupleElement_refusesAs : ∀ a : AnalyzedType, RefusesAs field (analyzedToTupleElement field a)
  | .mk base _ _ => (defaultLeafForBase_refusesAs false base).bind fun _ => .ok _

theorem analyzedToTupleElements_refusesAs : ∀ as : List AnalyzedType, RefusesAs field (analyzedToTupleElements field as)
  | [] => .ok _
  | a :: as => (analyzedToTupleElement_refusesAs a).bind fun _ => (analyzedToTupleElements_refusesAs as).bind fun _ => .ok _
end

mutual
theorem rejectUnsupportedWrappedNestedTuples_refusesAs : ∀ a : AnalyzedType,
    RefusesAs field (rejectUnsupportedWrappedNestedTuples field a)
  | .mk (.leaf _) _ _ => .ok _
  | .mk (.tuple elements) _ _ => rejectWrappedElements_refusesAs _ elements

theorem rejectWrappedElements_refusesAs (parentWrapped : Bool) : ∀ as : List AnalyzedType,
    RefusesAs field (rejectWrappedElements field parentWrapped as)
  | [] => .ok _
  | .mk base wrappers depth :: as => by
    rw [rejectWrappedElements]
    split
    · exact .error rfl
    · exact (rejectUnsupportedWrappedNestedTuples_refusesAs (.mk base wrappers depth)).bind fun _ =>
        rejectWrappedElements_refusesAs parentWrapped as
end

theorem rejectAttrsOnTuple_refusesAs (attr : String) (base : AnalyzedBase) :
    RefusesAs field (rejectAttrsOnTuple field attr base) := by
  cases base with
  | leaf base => exact .ok _
  | tuple elements => exact .error rfl

theorem parseLeafSpec_refusesAs (override? : Option LeafOverride) (base : AnalyzedBase) :
    RefusesAs field (parseLeafSpec field override? base) := by
  cases override? with
  | none => exact defaultLeafForBase_refusesAs true base
  | some value =>
    refine (rejectAttrsOnTuple_refusesAs value.attr base).bind fun _ => ?_
    cases base with
    | tuple elements => cases value <;> exact .error rfl
    | leaf base => cases value <;> cases base <;> first | exact .ok _ | exact .error rfl

theorem parseAsBinaryShape_refusesAs (base : AnalyzedBase) (wrappers : List RawWrapper) :
    RefusesAs field (parseAsBinaryShape field base wrappers) := by
  unfold parseAsBinaryShape
  split
  · exact .ok _
  · exact .ok _
  · exact .error rfl
  · exact .error rfl
  · split
    · exact .error rfl
    · split <;> exact .error rfl
    · exact .ok _
    · exact .error rfl
  · exact .error rfl

theorem rejectInvalidFlattenField_refusesAs (base : AnalyzedBase) (shape : WrapperShape) :
    RefusesAs field (rejectInvalidFlattenField field base shape) := by
  unfold rejectInvalidFlattenField
  split
  · exact .ok _
  · exact .ok _
  · exact .error rfl

end

/-! ## Fields -/

theorem lowerAnalyzed_refusesAs {field : String} (fieldIndex : Option Nat) (conversion : FieldConversion) (a : AnalyzedType) :
    RefusesAs field (lowerAnalyzed field fieldIndex conversion a) := by
  refine (rejectUnsupportedWrappedNestedTuples_refusesAs a).bind fun _ => ?_
  cases conversion with
  | «flatten» names =>
    exact (rejectInvalidFlattenField_refusesAs _ _).bind fun _ => (parseLeafSpec_refusesAs none _).bind fun _ => .ok _
  | binary => exact (rejectAttrsOnTuple_refusesAs _ _).bind fun _ => (parseAsBinaryShape_refusesAs _ _).bind fun _ => .ok _
  | default => exact (parseLeafSpec_refusesAs none _).bind fun _ => .ok _
  | leafOverride value => exact (parseLeafSpec_refusesAs (some value) _).bind fun _ => .ok _

section

variable {ty : RustType} {a : AnalyzedType}

theorem lowerAnalyzed_iff (h : analyzeType ty = .ok a) (name : String) (fieldIndex : Option Nat) (conversion : FieldConversion) :
    (∃ ir, lowerAnalyzed name fieldIndex conversion a = .ok ir) ↔
      rejectUnsupportedWrappedNestedTuples name a = .ok () ∧ conversion.Applies ty := by
  have hbind : ∀ {α β : Type} {r : Except LowerError α} {f : α → β},
      (∃ b, (do .ok (f (← r)) : Except LowerError β) = .ok b) ↔ ∃ x, r = .ok x := by
    intro α β r f
    constructor
    · rintro ⟨_, h⟩
      obtain ⟨x, hx, -⟩ := bind_eq_ok.mp h
      exact ⟨x, hx⟩
    · rintro ⟨x, hx⟩
      exact ⟨f x, bind_eq_ok.mpr ⟨x, hx, rfl⟩⟩
  rw [lowerAnalyzed]
  cases hreject : rejectUnsupportedWrappedNestedTuples name a with
  | error e =>
    constructor
    · rintro ⟨_, h⟩
      cases h
    · rintro ⟨h, -⟩
      cases h
  | ok u =>
    rw [ok_bind, and_iff_right rfl]
    cases conversion with
    | «flatten» names =>
      have hshape : normalizeWrappers a.wrappers = .leaf .bare ↔ ty.OnlyPointers := by
        rw [← analyzeType_bare h, ← bareWrappers_iff (analyzeType_wrappers h ▸ (peelTypeWrappers_of ty.stack).first)]
        simp [hasSemanticWrappers]
      simp only [FieldConversion.Applies, ← analyzeType_leafBase h, ← hshape, ← @rejectInvalidFlattenField_ok name]
      constructor
      · rintro ⟨_, hok⟩
        obtain ⟨⟨⟩, hflatten, -⟩ := bind_eq_ok.mp hok
        exact hflatten
      · intro hflatten
        rw [hflatten, ok_bind]
        refine hbind.mpr ?_
        rcases (rejectInvalidFlattenField_ok.mp hflatten).1 with ⟨s, hs⟩ | ⟨i, hi⟩
        · exact ⟨.struct s, by rw [hs]; rfl⟩
        · exact ⟨.generic i, by rw [hi]; rfl⟩
    | binary =>
      simp only [FieldConversion.Applies, ← analyzeType_leafBase h, ← peelTypeWrappers_last ty.stack,
        ← analyzeType_wrappers h, ← @parseAsBinaryShape_iff name]
      constructor
      · rintro ⟨_, hok⟩
        obtain ⟨⟨⟩, -, hok⟩ := bind_eq_ok.mp hok
        obtain ⟨r, hr, -⟩ := bind_eq_ok.mp hok
        exact ⟨r, hr⟩
      · rintro ⟨r, hr⟩
        have hleaf : rejectAttrsOnTuple name "as_binary" a.base = .ok () := by
          rcases (parseAsBinaryShape_iff a.base a.wrappers).mp ⟨r, hr⟩ with hb | hb | ⟨hb, -⟩ <;> rw [hb] <;> rfl
        rw [hleaf, ok_bind, hr]
        exact ⟨_, rfl⟩
    | default => exact hbind.trans (defaultLeafForBase_ok ty a h true)
    | leafOverride value =>
      refine hbind.trans ((parseLeafSpec_override value a.base).trans (exists_congr fun base => ?_))
      rw [analyzeType_leafBase h]

end

/-- A declared field that is kept is lowered exactly when its tuples are sound and its attribute
    is for its type. -/
theorem lowerField_include_ok {ty : RustType} {conversion : FieldConversion} {name : String} {fieldIndex : Option Nat} :
    (∃ ir, lowerField ⟨ty, .include conversion⟩ name fieldIndex = .ok (some ir)) ↔ ty.TuplesSound ∧ conversion.Applies ty := by
  rw [lowerField_include]
  cases hty : analyzeType ty with
  | error e =>
    constructor
    · rintro ⟨_, h⟩
      cases h
    · rintro ⟨hsound, -⟩
      obtain ⟨a, ha⟩ := (analyzeType_units ty).mpr hsound.units
      rw [hty] at ha
      cases ha
  | ok a =>
    have hunits := (analyzeType_units ty).mp ⟨a, hty⟩
    have hlower := lowerAnalyzed_iff hty name fieldIndex conversion
    rw [rejectUnsupportedWrappedNestedTuples_ok ty a hty] at hlower
    rw [ok_bind]
    constructor
    · rintro ⟨ir, h⟩
      obtain ⟨r, hr, -⟩ := bind_eq_ok.mp h
      obtain ⟨hunwrapped, happlies⟩ := hlower.mp ⟨r, hr⟩
      exact ⟨⟨hunits, hunwrapped⟩, happlies⟩
    · rintro ⟨hsound, happlies⟩
      obtain ⟨r, hr⟩ := hlower.mpr ⟨hsound.unwrapped, happlies⟩
      exact ⟨r, bind_eq_ok.mpr ⟨r, hr, rfl⟩⟩

section

variable (text : FieldType → TypePath) (structName : String) (genericParams : List String) {field : WrittenField} {name : String}
  {fieldIndex : Option Nat}

/-- A field whose type has a meaning is refused under its name. -/
theorem FieldMeans.refusesAs {d : FieldDecl} (h : FieldMeans text structName genericParams field d) :
    RefusesAs name (lowerField d name fieldIndex) := by
  obtain ⟨ty, disposition⟩ := d
  cases disposition with
  | skip => exact .ok _
  | «include» conversion =>
    obtain ⟨hmeans, -⟩ := h.means nofun
    obtain ⟨analyzed, -, hanalyzed⟩ := hmeans.reads.analyzeType
    rw [lowerField_include, hanalyzed, ok_bind]
    exact (lowerAnalyzed_refusesAs fieldIndex conversion _).bind fun _ => .ok _

/-- Two attributes that cannot go together are refused under the field's name. -/
theorem ItemsRefused.field? {items : List FieldItem} {e : FieldAttrError} (h : ItemsRefused name items e) :
    e.field? = some name ∨ ∃ item ∈ items, item.read = .error e := by
  cases h with
  | first refused => exact .inr ⟨_, List.mem_cons_self, refused⟩
  | second _ refused => exact .inr ⟨_, List.mem_cons_of_mem _ List.mem_cons_self, refused⟩
  | override _ _ =>
    refine .inl ?_
    unfold secondOverride
    split <;> rfl

/-- A field is kept exactly when its attributes ask for a conversion and its type has a meaning
    without the struct itself, with sound tuples, that the conversion is for; it is left out
    exactly when they say `skip`. What is refused is refused under the field's name, unless an
    attribute cannot be read or the type has no meaning. -/
theorem field_accepted_iff (field : WrittenField) (name : String) (fieldIndex : Option Nat) :
    ((∃ ir, lowerWrittenField text structName genericParams field name fieldIndex = .ok (some ir)) ↔
        ∃ conversion, FieldDisposition.InRange (.include conversion) ∧
          fieldItems field.attrs ∈ FieldDisposition.spellings (.include conversion) ∧
          ∃ ty, Means genericParams text field.ty ty ∧ ¬ HoldsItself genericParams structName field.ty ∧
            ty.TuplesSound ∧ conversion.Applies ty) ∧
      (lowerWrittenField text structName genericParams field name fieldIndex = .ok none ↔ fieldItems field.attrs = [.skip]) ∧
      ∀ e, lowerWrittenField text structName genericParams field name fieldIndex = .error e →
        e.field? = some name ∨ (∃ item ∈ fieldItems field.attrs, ∃ unread, item.read = .error unread ∧ e = .attrs unread) ∨
          ∃ refused, Refused genericParams text field.ty refused ∧ e = .type refused := by
  refine ⟨⟨?_, ?_⟩, ⟨?_, ?_⟩, ?_⟩
  · rintro ⟨ir, h⟩
    obtain ⟨⟨ty, disposition⟩, hmeans, hlower⟩ := lowerWrittenField_ok.mp h
    cases disposition with
    | skip => cases hlower
    | «include» conversion =>
      obtain ⟨hty, hself⟩ := hmeans.means nofun
      exact ⟨conversion, hmeans.inRange, hmeans.spelled, ty, hty, hself, lowerField_include_ok.mp ⟨ir, hlower⟩⟩
  · rintro ⟨conversion, hrange, hspelled, ty, hty, hself, hlower⟩
    obtain ⟨ir, hir⟩ := lowerField_include_ok.mpr hlower
    exact ⟨ir, lowerWrittenField_ok.mpr ⟨⟨ty, .include conversion⟩, ⟨hrange, hspelled, fun _ => ⟨hty, hself⟩⟩, hir⟩⟩
  · intro h
    obtain ⟨⟨ty, disposition⟩, hmeans, hlower⟩ := lowerWrittenField_ok.mp h
    cases disposition with
    | skip => exact List.mem_singleton.mp hmeans.spelled
    | «include» conversion =>
      rw [lowerField_include] at hlower
      obtain ⟨_, -, hlower⟩ := bind_eq_ok.mp hlower
      obtain ⟨_, -, hlower⟩ := bind_eq_ok.mp hlower
      cases hlower
  · intro h
    refine lowerWrittenField_ok.mpr ⟨⟨.mk [] (.leaf .bool), .skip⟩, ⟨trivial, ?_, fun hskip => absurd rfl hskip⟩, rfl⟩
    exact List.mem_singleton.mpr h
  · intro e h
    cases lowerWrittenField_error.mp h with
    | attrs refused =>
      rcases ((parseFieldDisposition_refused name field.attrs _).mp refused).field? with hname | ⟨item, hitem, hread⟩
      · exact .inl hname
      · exact .inr (.inl ⟨item, hitem, _, hread, rfl⟩)
    | type _ refused => exact .inr (.inr ⟨_, refused, rfl⟩)
    | selfReference _ _ _ => exact .inl rfl
    | lower hmeans refused => exact .inl (hmeans.refusesAs text structName genericParams _ refused)

end

end DfDerive
