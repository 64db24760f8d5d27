/-
  DfDerive.Lower.Accepted — what lowering guarantees of the fields it accepts.

  A field's shape and the shapes of its tuple elements are normal forms of peeled stacks:
  their cached counts can be relied on, and no pointer lies above their first boundary. A
  nested tuple has no wrappers around it nor around the tuples it is in
  (`lowerField_projectable`).
-/

import DfDerive.Lower.Projection
import DfDerive.Lib.Runs

namespace DfDerive

open Lib

/-- A shape as normalization leaves it: reliable counts, and no pointer above the first boundary. -/
structure WrapperShape.Normalized (shape : WrapperShape) : Prop where
  counted : shape.Counted
  first : ∀ c, shape.firstAccess.steps ≠ .smartPtr :: c

mutual
/-- Elements of a tuple; `bare` when the tuple may hold further tuples. -/
def ElementsProjectable (bare : Prop) : List TupleElement → Prop
  | [] => True
  | element :: elements => ElementProjectable bare element ∧ ElementsProjectable bare elements

def ElementProjectable (bare : Prop) : TupleElement → Prop
  | .mk leafSpec shape _ => shape.Normalized ∧ LeafProjectable (bare ∧ shape = .leaf .bare) leafSpec

/-- A nested tuple has no wrappers around it, nor around the tuples it is in. -/
def LeafProjectable (bare : Prop) : LeafSpec → Prop
  | .tuple elements => bare ∧ ElementsProjectable True elements
  | _ => True
end

structure FieldIR.Projectable (field : FieldIR) : Prop where
  normalized : field.wrapperShape.Normalized
  elements : ∀ elements, field.leafSpec = .tuple elements → ElementsProjectable (field.wrapperShape = .leaf .bare) elements

/-! ## Shapes -/

/-- The normal form of wrappers that start with an `Option` or a `Vec`, or are none. -/
theorem normalizeWrappers_normalized {ws : List RawWrapper} (h : ∀ ws', ws ≠ .smartPtr :: ws') :
    (normalizeWrappers ws).Normalized := by
  have hfirst : ∀ (rest : List RawWrapper) {steps : List AccessStep}, (AccessChain.word ⟨steps⟩) ++ rest = ws →
      ∀ c, steps ≠ .smartPtr :: c := by
    rintro rest steps rfl c rfl
    exact h _ rfl
  cases hshape : normalizeWrappers ws with
  | leaf s =>
    rcases word_normalizeWrappers_leaf hshape with ⟨rfl, -⟩ | ⟨n, c, rfl, hn, hpos, hword⟩
    · exact ⟨trivial, nofun⟩
    · exact ⟨⟨hn, hpos⟩, hfirst [] (by rw [List.append_nil]; exact hword)⟩
  | vec s =>
    refine ⟨normalizeWrappers_nullable hshape, hfirst (.vec :: ?_) ?_⟩
    · exact s.layers.rest.flatMap VecLayerSpec.word ++ s.innerAccess.word
    · rw [← word_normalizeWrappers_vec hshape, VecLayers.word, NonEmpty.toList, List.flatMap_cons, VecLayerSpec.word]
      simp only [List.append_assoc, List.singleton_append]
      rfl

theorem dropLast_first {ws : List RawWrapper} (h : ∀ ws', ws ≠ .smartPtr :: ws') :
    ∀ ws', ws.dropLast ≠ .smartPtr :: ws' := by
  intro ws' hws
  cases ws with
  | nil => cases hws
  | cons w rest =>
    cases rest with
    | nil => cases hws
    | cons x rest =>
      rw [List.dropLast_cons_cons] at hws
      cases hws
      exact h _ rfl

/-! ## Analyzed types -/

mutual
/-- No pointer is left above the wrappers, here or in an element. -/
def AnalyzedType.Peeled : AnalyzedType → Prop
  | .mk base wrappers _ => (∀ ws, wrappers ≠ .smartPtr :: ws) ∧ AnalyzedBase.Peeled base

def AnalyzedBase.Peeled : AnalyzedBase → Prop
  | .leaf _ => True
  | .tuple elements => AllPeeled elements

def AllPeeled : List AnalyzedType → Prop
  | [] => True
  | element :: elements => AnalyzedType.Peeled element ∧ AllPeeled elements
end

mutual
theorem analyzeType_peeled : ∀ {ty : RustType} {a : AnalyzedType}, analyzeType ty = .ok a → a.Peeled
  | .mk stack base, _, h => by
    obtain ⟨b, hb, hok⟩ := bind_eq_ok.mp h
    cases hok
    exact ⟨(peelTypeWrappers_of stack).first, analyzeBaseType_peeled hb⟩

theorem analyzeBaseType_peeled : ∀ {base : RustBase} {a : AnalyzedBase}, analyzeBaseType base = .ok a → a.Peeled
  | .leaf _, _, h => by cases h; trivial
  | .tuple [], _, h => by cases h
  | .tuple (element :: elements), _, h => by
    obtain ⟨first, hfirst, h⟩ := bind_eq_ok.mp h
    obtain ⟨rest, hrest, hok⟩ := bind_eq_ok.mp h
    cases hok
    exact ⟨analyzeType_peeled hfirst, analyzeTypes_peeled hrest⟩

theorem analyzeTypes_peeled : ∀ {tys : List RustType} {as : List AnalyzedType}, analyzeTypes tys = .ok as → AllPeeled as
  | [], _, h => by cases h; trivial
  | element :: elements, _, h => by
    obtain ⟨first, hfirst, h⟩ := bind_eq_ok.mp h
    obtain ⟨rest, hrest, hok⟩ := bind_eq_ok.mp h
    cases hok
    exact ⟨analyzeType_peeled hfirst, analyzeTypes_peeled hrest⟩
end

/-! ## Tuples -/

/-- A leaf that is not a tuple asks nothing of its wrappers. -/
theorem defaultLeafForLeafBase_projectable {field : String} {canAddAsBinary : Bool} {base : LeafBase} {leaf : LeafSpec}
    (h : defaultLeafForLeafBase field canAddAsBinary base = .ok leaf) (bare : Prop) : LeafProjectable bare leaf := by
  cases base <;> cases h <;> trivial

/-- Kept wrappers normalize to a bare leaf exactly when there are none. -/
theorem bareWrappers_iff {ws : List RawWrapper} (h : ∀ ws', ws ≠ .smartPtr :: ws') :
    hasSemanticWrappers ws = false ↔ normalizeWrappers ws = .leaf .bare := by
  constructor
  · intro hnone
    have hnil : ws = [] := by simpa [hasSemanticWrappers] using hnone
    rw [hnil]
    rfl
  · intro hbare
    rcases word_normalizeWrappers_leaf hbare with ⟨-, hptr⟩ | ⟨n, c, hc, -⟩
    · cases ws with
      | nil => rfl
      | cons w ws => exact absurd (hptr w List.mem_cons_self ▸ rfl) (h ws)
    · cases hc

/-- The binary leaf, below the wrappers or all but the `Vec` of the bytes. -/
theorem parseAsBinaryShape_ok {field : String} {base : AnalyzedBase} {wrappers trimmed : List RawWrapper}
    {leaf : LeafSpec} (h : parseAsBinaryShape field base wrappers = .ok (leaf, trimmed)) :
    leaf = .binary ∧ (trimmed = wrappers ∨ trimmed = wrappers.dropLast) := by
  unfold parseAsBinaryShape at h
  split at h
  · cases h
    exact ⟨rfl, Or.inl rfl⟩
  · cases h
    exact ⟨rfl, Or.inl rfl⟩
  · cases h
  · cases h
  · split at h
    · cases h
    · split at h <;> cases h
    · cases h
      exact ⟨rfl, Or.inr rfl⟩
    · cases h
  · cases h

mutual
/-- The elements of an accepted tuple; they may be tuples when `parentWrapped` is false. -/
theorem analyzedToTupleElements_projectable {field : String} {parentWrapped : Bool} : ∀ {analyzed : List AnalyzedType}
    {elements : List TupleElement}, AllPeeled analyzed → rejectWrappedElements field parentWrapped analyzed = .ok () →
      analyzedToTupleElements field analyzed = .ok elements → ElementsProjectable (parentWrapped = false) elements
  | [], _, _, _, h => by cases h; trivial
  | .mk base wrappers depth :: rest, _, hp, hr, h => by
    obtain ⟨first, hfirst, h⟩ := bind_eq_ok.mp h
    obtain ⟨elements, hrest, hok⟩ := bind_eq_ok.mp h
    cases hok
    rw [rejectWrappedElements] at hr
    split at hr
    · cases hr
    · rename_i hunwrapped
      obtain ⟨⟨⟩, hinner, hr⟩ := bind_eq_ok.mp hr
      have hbare : base.isTuple = true → parentWrapped = false ∧ wrappers = [] := by
        simpa [hasSemanticWrappers] using hunwrapped
      exact ⟨analyzedToTupleElement_projectable hp.1 hinner hbare hfirst,
        analyzedToTupleElements_projectable hp.2 hr hrest⟩

theorem analyzedToTupleElement_projectable {field : String} {parentWrapped : Bool} : ∀ {analyzed : AnalyzedType}
    {element : TupleElement}, analyzed.Peeled → rejectUnsupportedWrappedNestedTuples field analyzed = .ok () →
      (analyzed.base.isTuple = true → parentWrapped = false ∧ analyzed.wrappers = []) →
        analyzedToTupleElement field analyzed = .ok element → ElementProjectable (parentWrapped = false) element
  | .mk base wrappers depth, _, hp, hr, hbare, h => by
    obtain ⟨leaf, hleaf, hok⟩ := bind_eq_ok.mp h
    cases hok
    refine ⟨normalizeWrappers_normalized hp.1, ?_⟩
    cases base with
    | leaf base => exact defaultLeafForLeafBase_projectable hleaf _
    | tuple elements =>
      obtain ⟨lowered, hlowered, hok⟩ := bind_eq_ok.mp hleaf
      cases hok
      obtain ⟨hparent, hnil⟩ := hbare rfl
      have hnil : wrappers = [] := hnil
      subst hnil
      have hinner : ElementsProjectable (hasSemanticWrappers [] = false) lowered :=
        analyzedToTupleElements_projectable hp.2 hr hlowered
      simp only [hasSemanticWrappers, List.isEmpty_nil, Bool.not_true] at hinner
      exact ⟨⟨hparent, rfl⟩, hinner⟩
end

/-! ## Fields -/

theorem parseLeafSpec_tuple {field : String} {override? : Option LeafOverride} {base : AnalyzedBase}
    {elements : List TupleElement} (h : parseLeafSpec field override? base = .ok (.tuple elements)) :
    ∃ analyzed, base = .tuple analyzed ∧ analyzedToTupleElements field analyzed = .ok elements := by
  cases base with
  | tuple analyzed =>
    cases override? with
    | none =>
      obtain ⟨lowered, hlowered, hok⟩ := bind_eq_ok.mp (show defaultLeafForBase field true (.tuple analyzed) = _ from h)
      cases hok
      exact ⟨analyzed, rfl, hlowered⟩
    | some value => cases h
  | leaf base =>
    cases override? with
    | none => cases base <;> cases h
    | some value => cases value <;> cases base <;> cases h

/-- The override of a field's leaf, if its attribute is one. -/
def FieldConversion.override? : FieldConversion → Option LeafOverride
  | leafOverride value => some value
  | _ => none

/-- What an accepted field is lowered to, unless it is skipped. -/
theorem lowerField_ok {field : FieldDecl} {name : String} {fieldIndex : Option Nat} {ir : FieldIR}
    (h : lowerField field name fieldIndex = .ok (some ir)) :
    ∃ conversion analyzed leafSpec wrappers policy, field.disposition = .include conversion ∧
      analyzeType field.ty = .ok analyzed ∧ rejectUnsupportedWrappedNestedTuples name analyzed = .ok () ∧
      ((conversion ≠ .binary ∧ parseLeafSpec name conversion.override? analyzed.base = .ok leafSpec ∧
          wrappers = analyzed.wrappers) ∨
        (conversion = .binary ∧ parseAsBinaryShape name analyzed.base analyzed.wrappers = .ok (leafSpec, wrappers))) ∧
      ir = ⟨name, fieldIndex, leafSpec, normalizeWrappers wrappers, analyzed.outerSmartPtrDepth, policy⟩ := by
  unfold lowerField at h
  split at h
  · cases h
  · rename_i conversion hconversion
    obtain ⟨analyzed, hanalyzed, h⟩ := bind_eq_ok.mp h
    obtain ⟨⟨⟩, hreject, h⟩ := bind_eq_ok.mp h
    refine ⟨conversion, analyzed, ?_⟩
    cases conversion with
    | «flatten» names =>
      obtain ⟨⟨⟩, -, h⟩ := bind_eq_ok.mp h
      obtain ⟨leafSpec, hparse, hok⟩ := bind_eq_ok.mp h
      cases hok
      exact ⟨leafSpec, _, _, hconversion, hanalyzed, hreject, Or.inl ⟨nofun, hparse, rfl⟩, rfl⟩
    | binary =>
      obtain ⟨⟨⟩, -, h⟩ := bind_eq_ok.mp h
      obtain ⟨⟨leafSpec, trimmed⟩, hbinary, hok⟩ := bind_eq_ok.mp h
      cases hok
      exact ⟨leafSpec, trimmed, _, hconversion, hanalyzed, hreject, Or.inr ⟨rfl, hbinary⟩, rfl⟩
    | default =>
      obtain ⟨leafSpec, hparse, hok⟩ := bind_eq_ok.mp h
      cases hok
      exact ⟨leafSpec, _, _, hconversion, hanalyzed, hreject, Or.inl ⟨nofun, hparse, rfl⟩, rfl⟩
    | leafOverride value =>
      obtain ⟨leafSpec, hparse, hok⟩ := bind_eq_ok.mp h
      cases hok
      exact ⟨leafSpec, _, _, hconversion, hanalyzed, hreject, Or.inl ⟨nofun, hparse, rfl⟩, rfl⟩

/-- A field of an accepted struct has reliable shapes, and no wrapped nested tuple. -/
theorem lowerField_projectable {field : FieldDecl} {name : String} {fieldIndex : Option Nat} {ir : FieldIR}
    (h : lowerField field name fieldIndex = .ok (some ir)) : ir.Projectable := by
  obtain ⟨conversion, ⟨base, kept, depth⟩, leafSpec, wrappers, policy, -, hanalyzed, hreject, hleaf, rfl⟩ := lowerField_ok h
  have hpeeled := analyzeType_peeled hanalyzed
  rcases hleaf with ⟨-, hparse, rfl⟩ | ⟨-, hbinary⟩
  · refine ⟨normalizeWrappers_normalized hpeeled.1, ?_⟩
    rintro elements rfl
    obtain ⟨tuple, rfl, htuple⟩ := parseLeafSpec_tuple hparse
    have helements := analyzedToTupleElements_projectable hpeeled.2 hreject htuple
    have hbare : (hasSemanticWrappers wrappers = false) = (normalizeWrappers wrappers = .leaf .bare) :=
      propext (bareWrappers_iff hpeeled.1)
    rw [hbare] at helements
    exact helements
  · obtain ⟨rfl, htrimmed⟩ := parseAsBinaryShape_ok hbinary
    refine ⟨normalizeWrappers_normalized ?_, nofun⟩
    rcases htrimmed with rfl | rfl
    · exact hpeeled.1
    · exact dropLast_first hpeeled.1

end DfDerive
