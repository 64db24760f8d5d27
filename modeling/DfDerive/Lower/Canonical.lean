/-
  DfDerive.Lower.Canonical — the canonical type of a field.

  A type and the elements of its tuples lose their pointers, and keep one `Option` where
  several are in a row. `lowerFields_canonical`: a struct that is accepted is accepted with the
  canonical types, and lowering finds the canonical fields in it.
-/

import DfDerive.Lower.Acceptance
import DfDerive.Lower.Lossless
import DfDerive.Spec.Canonical

namespace DfDerive

open Lib

/-! ## Types and fields -/

mutual
def RustType.canonical : RustType → RustType
  | .mk stack base => .mk (canonWord stack) base.canonical

def RustBase.canonical : RustBase → RustBase
  | .leaf base => .leaf base
  | .tuple elements => .tuple (canonicalTypes elements)

def canonicalTypes : List RustType → List RustType
  | [] => []
  | element :: elements => element.canonical :: canonicalTypes elements
end

mutual
def AnalyzedType.canonical : AnalyzedType → AnalyzedType
  | .mk base wrappers _ => .mk base.canonical (canonWord wrappers) 0

def AnalyzedBase.canonical : AnalyzedBase → AnalyzedBase
  | .leaf base => .leaf base
  | .tuple elements => .tuple (canonicalAnalyzed elements)

def canonicalAnalyzed : List AnalyzedType → List AnalyzedType
  | [] => []
  | element :: elements => element.canonical :: canonicalAnalyzed elements
end

def WrapperShape.canonical (shape : WrapperShape) : WrapperShape := normalizeWrappers (canonWord shape.word)

mutual
def LeafSpec.canonical : LeafSpec → LeafSpec
  | .tuple elements => .tuple (canonicalElements elements)
  | leafSpec => leafSpec

def TupleElement.canonical : TupleElement → TupleElement
  | .mk leafSpec shape _ => .mk leafSpec.canonical shape.canonical 0

def canonicalElements : List TupleElement → List TupleElement
  | [] => []
  | element :: elements => element.canonical :: canonicalElements elements
end

def FieldIR.canonical (field : FieldIR) : FieldIR :=
  { field with leafSpec := field.leafSpec.canonical, wrapperShape := field.wrapperShape.canonical, outerSmartPtrDepth := 0 }

def FieldDecl.canonical (field : FieldDecl) : FieldDecl := { field with ty := field.ty.canonical }

def Fields.canonical : Fields → Fields
  | .named fields => .named (fields.map fun f => (f.1, f.2.canonical))
  | .unnamed fields => .unnamed (fields.map FieldDecl.canonical)
  | .unit => .unit

/-! ## Analysis -/

theorem canonWord_pointed (depth : Nat) (w : List RawWrapper) :
    canonWord (List.replicate depth .smartPtr ++ w) = canonWord w := by
  induction depth with
  | zero => rfl
  | succ depth ih => exact ih

/-- A word without pointers is peeled to itself. -/
theorem peelTypeWrappers_free {w : List RawWrapper} (h : .smartPtr ∉ w) : peelTypeWrappers w = ⟨w, 0⟩ := by
  have hstack := (peelTypeWrappers_of w).stack
  generalize peelTypeWrappers w = p at hstack
  obtain ⟨wrappers, depth⟩ := p
  cases depth with
  | zero =>
    have hwrappers : w = wrappers := hstack
    rw [hwrappers]
  | succ depth =>
    rw [hstack] at h
    exact absurd (List.mem_append_left _ (List.mem_replicate.mpr ⟨Nat.succ_ne_zero _, rfl⟩)) h

theorem peelTypeWrappers_canonical (stack : List RawWrapper) :
    peelTypeWrappers (canonWord stack) = ⟨canonWord (peelTypeWrappers stack).wrappers, 0⟩ := by
  rw [peelTypeWrappers_free (canonWord_pointers stack)]
  conv_lhs => rw [(peelTypeWrappers_of stack).stack, canonWord_pointed]

mutual
theorem analyzeType_canonical : ∀ {ty : RustType} {a : AnalyzedType}, analyzeType ty = .ok a →
    analyzeType ty.canonical = .ok a.canonical
  | .mk stack base, _, h => by
    obtain ⟨b, hb, hok⟩ := bind_eq_ok.mp h
    cases hok
    refine bind_eq_ok.mpr ⟨b.canonical, analyzeBaseType_canonical hb, ?_⟩
    rw [peelTypeWrappers_canonical]
    rfl

theorem analyzeBaseType_canonical : ∀ {base : RustBase} {a : AnalyzedBase}, analyzeBaseType base = .ok a →
    analyzeBaseType base.canonical = .ok a.canonical
  | .leaf _, _, h => by
    cases h
    rfl
  | .tuple [], _, h => by cases h
  | .tuple (element :: elements), _, h => by
    obtain ⟨first, hfirst, h⟩ := bind_eq_ok.mp h
    obtain ⟨rest, hrest, hok⟩ := bind_eq_ok.mp h
    cases hok
    exact bind_eq_ok.mpr ⟨_, analyzeType_canonical hfirst, bind_eq_ok.mpr ⟨_, analyzeTypes_canonical hrest, rfl⟩⟩

theorem analyzeTypes_canonical : ∀ {tys : List RustType} {as : List AnalyzedType}, analyzeTypes tys = .ok as →
    analyzeTypes (canonicalTypes tys) = .ok (canonicalAnalyzed as)
  | [], _, h => by
    cases h
    rfl
  | element :: elements, _, h => by
    obtain ⟨first, hfirst, h⟩ := bind_eq_ok.mp h
    obtain ⟨rest, hrest, hok⟩ := bind_eq_ok.mp h
    cases hok
    exact bind_eq_ok.mpr ⟨_, analyzeType_canonical hfirst, bind_eq_ok.mpr ⟨_, analyzeTypes_canonical hrest, rfl⟩⟩
end

/-! ## Tuples -/

theorem consOption_ne_nil (w : List RawWrapper) : consOption w ≠ [] := by
  rcases consOption_cases w with ⟨w', -, hcons⟩ | ⟨hcons, -⟩ <;> rw [hcons] <;> exact List.cons_ne_nil _ _

/-- Wrappers that are kept leave some. -/
theorem hasSemanticWrappers_canonical {ws : List RawWrapper} (h : ∀ ws', ws ≠ .smartPtr :: ws') :
    hasSemanticWrappers (canonWord ws) = hasSemanticWrappers ws := by
  cases ws with
  | nil => rfl
  | cons s ws =>
    cases s with
    | option => simp [hasSemanticWrappers, canonWord, consOption_ne_nil]
    | vec => rfl
    | smartPtr => exact absurd rfl (h ws)

theorem isTuple_canonical (base : AnalyzedBase) : base.canonical.isTuple = base.isTuple := by
  cases base <;> rfl

mutual
theorem rejectUnsupportedWrappedNestedTuples_canonical {field : String} : ∀ {a : AnalyzedType}, a.Peeled →
    rejectUnsupportedWrappedNestedTuples field a = .ok () → rejectUnsupportedWrappedNestedTuples field a.canonical = .ok ()
  | .mk (.leaf _) _ _, _, _ => rfl
  | .mk (.tuple elements) wrappers _, hp, h => by
    show rejectWrappedElements field (hasSemanticWrappers (canonWord wrappers)) (canonicalAnalyzed elements) = .ok ()
    rw [hasSemanticWrappers_canonical hp.1]
    exact rejectWrappedElements_canonical hp.2 h

theorem rejectWrappedElements_canonical {field : String} {wrapped : Bool} : ∀ {as : List AnalyzedType}, AllPeeled as →
    rejectWrappedElements field wrapped as = .ok () → rejectWrappedElements field wrapped (canonicalAnalyzed as) = .ok ()
  | [], _, _ => rfl
  | .mk base wrappers depth :: rest, hp, h => by
    rw [rejectWrappedElements] at h
    split at h
    · cases h
    · rename_i hunwrapped
      obtain ⟨⟨⟩, hinner, h⟩ := bind_eq_ok.mp h
      rw [canonicalAnalyzed, AnalyzedType.canonical, rejectWrappedElements, isTuple_canonical,
        hasSemanticWrappers_canonical hp.1.1, if_neg hunwrapped]
      exact bind_eq_ok.mpr ⟨(), rejectUnsupportedWrappedNestedTuples_canonical hp.1 hinner,
        rejectWrappedElements_canonical hp.2 h⟩
end

theorem defaultLeafForLeafBase_canonical {field : String} {canAddAsBinary : Bool} {base : LeafBase} {leafSpec : LeafSpec}
    (h : defaultLeafForLeafBase field canAddAsBinary base = .ok leafSpec) : leafSpec.canonical = leafSpec := by
  cases base <;> cases h <;> rfl

/-- The canonical shape is the shape of the canonical wrappers. -/
theorem normalizeWrappers_canonical {ws : List RawWrapper} (h : ∀ ws', ws ≠ .smartPtr :: ws') :
    (normalizeWrappers ws).canonical = normalizeWrappers (canonWord ws) := by
  rw [WrapperShape.canonical, normalizeWrappers_word h]

mutual
theorem defaultLeafForBase_canonical {field : String} {canAddAsBinary : Bool} : ∀ {base : AnalyzedBase} {leafSpec : LeafSpec},
    base.Peeled → defaultLeafForBase field canAddAsBinary base = .ok leafSpec →
      defaultLeafForBase field canAddAsBinary base.canonical = .ok leafSpec.canonical
  | .leaf base, _, _, h => by
    rw [defaultLeafForLeafBase_canonical h]
    exact h
  | .tuple elements, _, hp, h => by
    obtain ⟨lowered, hlowered, hok⟩ := bind_eq_ok.mp h
    cases hok
    exact bind_eq_ok.mpr ⟨_, analyzedToTupleElements_canonical hp hlowered, rfl⟩

theorem analyzedToTupleElement_canonical {field : String} : ∀ {a : AnalyzedType} {element : TupleElement}, a.Peeled →
    analyzedToTupleElement field a = .ok element → analyzedToTupleElement field a.canonical = .ok element.canonical
  | .mk base wrappers depth, _, hp, h => by
    obtain ⟨leafSpec, hleaf, hok⟩ := bind_eq_ok.mp h
    cases hok
    rw [TupleElement.canonical, normalizeWrappers_canonical hp.1]
    exact bind_eq_ok.mpr ⟨_, defaultLeafForBase_canonical hp.2 hleaf, rfl⟩

theorem analyzedToTupleElements_canonical {field : String} : ∀ {as : List AnalyzedType} {elements : List TupleElement},
    AllPeeled as → analyzedToTupleElements field as = .ok elements →
      analyzedToTupleElements field (canonicalAnalyzed as) = .ok (canonicalElements elements)
  | [], _, _, h => by
    cases h
    rfl
  | a :: as, _, hp, h => by
    obtain ⟨first, hfirst, h⟩ := bind_eq_ok.mp h
    obtain ⟨rest, hrest, hok⟩ := bind_eq_ok.mp h
    cases hok
    exact bind_eq_ok.mpr ⟨_, analyzedToTupleElement_canonical hp.1 hfirst,
      bind_eq_ok.mpr ⟨_, analyzedToTupleElements_canonical hp.2 hrest, rfl⟩⟩
end

/-! ## Fields -/

theorem parseLeafSpec_canonical {field : String} {override? : Option LeafOverride} {base : AnalyzedBase} {leafSpec : LeafSpec}
    (hp : base.Peeled) (h : parseLeafSpec field override? base = .ok leafSpec) :
    parseLeafSpec field override? base.canonical = .ok leafSpec.canonical := by
  cases override? with
  | none => exact defaultLeafForBase_canonical hp h
  | some value =>
    cases base with
    | tuple elements => cases h
    | leaf base =>
      have hsame : leafSpec.canonical = leafSpec := by
        cases value <;> cases base <;> cases h <;> rfl
      rw [hsame]
      exact h

theorem canonWord_vec : ∀ w : List RawWrapper, canonWord (w ++ [.vec]) = canonWord w ++ [.vec]
  | [] => rfl
  | .smartPtr :: w => canonWord_vec w
  | .vec :: w => congrArg (RawWrapper.vec :: ·) (canonWord_vec w)
  | .option :: w => by
    have hcons : ∀ w : List RawWrapper, consOption (w ++ [.vec]) = consOption w ++ [.vec] := by
      intro w
      cases w with
      | nil => rfl
      | cons s w => cases s <;> rfl
    show consOption (canonWord (w ++ [.vec])) = consOption (canonWord w) ++ [.vec]
    rw [canonWord_vec w, hcons]

theorem parseAsBinaryShape_bytes (field : String) (w : List RawWrapper) :
    parseAsBinaryShape field (.leaf (.numeric .u8)) (w ++ [.vec]) = .ok (.binary, w) := by
  unfold parseAsBinaryShape
  simp

theorem parseAsBinaryShape_canonical {field : String} {base : AnalyzedBase} {wrappers trimmed : List RawWrapper}
    {leafSpec : LeafSpec} (h : parseAsBinaryShape field base wrappers = .ok (leafSpec, trimmed)) :
    parseAsBinaryShape field base.canonical (canonWord wrappers) = .ok (leafSpec.canonical, canonWord trimmed) := by
  obtain ⟨rfl, hwrappers⟩ := parseAsBinaryShape_trimmed h
  rcases bytesTail_cases base with htail | htail
  · -- borrowed bytes, with no `Vec` to trim
    rw [htail, List.append_nil] at hwrappers
    subst hwrappers
    unfold parseAsBinaryShape at h
    split at h
    · rfl
    · rfl
    · cases h
    · cases h
    · cases htail
    · cases h
  · rw [htail] at hwrappers
    subst hwrappers
    obtain ⟨rfl⟩ : base = .leaf (.numeric .u8) := by
      unfold bytesTail at htail
      split at htail
      · rfl
      · cases htail
    rw [canonWord_vec]
    exact parseAsBinaryShape_bytes field _

theorem rejectAttrsOnTuple_canonical {field attr : String} {base : AnalyzedBase}
    (h : rejectAttrsOnTuple field attr base = .ok ()) : rejectAttrsOnTuple field attr base.canonical = .ok () := by
  cases base with
  | leaf base => rfl
  | tuple elements => cases h

theorem canonical_ok {ws : List RawWrapper} (h : ∀ ws', ws ≠ .smartPtr :: ws') (name : String) (fieldIndex : Option Nat)
    (leafSpec : LeafSpec) (depth : Nat) (policy : NestedNamePolicy) :
    (.ok (some ⟨name, fieldIndex, leafSpec.canonical, normalizeWrappers (canonWord ws), 0, policy⟩) :
      Except LowerError (Option FieldIR)) =
        .ok (some (FieldIR.canonical ⟨name, fieldIndex, leafSpec, normalizeWrappers ws, depth, policy⟩)) := by
  rw [← normalizeWrappers_canonical h]
  rfl

/-- What is lowered of the canonical type is canonical. -/
theorem lowerField_canonical {field : FieldDecl} {name : String} {fieldIndex : Option Nat} {lowered : Option FieldIR}
    (h : lowerField field name fieldIndex = .ok lowered) :
    lowerField field.canonical name fieldIndex = .ok (lowered.map FieldIR.canonical) := by
  obtain ⟨ty, disposition⟩ := field
  cases disposition with
  | skip =>
    cases h
    rfl
  | «include» conversion =>
    obtain ⟨⟨base, wrappers, depth⟩, hanalyzed, h⟩ := bind_eq_ok.mp h
    obtain ⟨⟨⟩, hreject, h⟩ := bind_eq_ok.mp h
    have hp := analyzeType_peeled hanalyzed
    refine bind_eq_ok.mpr ⟨_, analyzeType_canonical hanalyzed,
      bind_eq_ok.mpr ⟨(), rejectUnsupportedWrappedNestedTuples_canonical hp hreject, ?_⟩⟩
    cases conversion with
    | «flatten» names =>
      obtain ⟨⟨⟩, hflat, h⟩ := bind_eq_ok.mp h
      obtain ⟨leafSpec, hleaf, hok⟩ := bind_eq_ok.mp h
      cases hok
      obtain ⟨-, hbare⟩ := rejectInvalidFlattenField_ok.mp hflat
      have hnil : wrappers = [] := by
        simpa [hasSemanticWrappers] using (bareWrappers_iff hp.1).mpr hbare
      subst hnil
      have hbase : AnalyzedBase.canonical base = base := by
        cases base with
        | leaf base => rfl
        | tuple elements => cases hflat
      refine bind_eq_ok.mpr ⟨(), ?_, bind_eq_ok.mpr ⟨_, parseLeafSpec_canonical hp.2 hleaf, canonical_ok hp.1 _ _ _ _ _⟩⟩
      show rejectInvalidFlattenField name base.canonical (normalizeWrappers []) = .ok ()
      rw [hbase]
      exact hflat
    | binary =>
      obtain ⟨⟨⟩, hattr, h⟩ := bind_eq_ok.mp h
      obtain ⟨⟨leafSpec, trimmed⟩, hbinary, hok⟩ := bind_eq_ok.mp h
      cases hok
      have hfirst : ∀ ws, trimmed ≠ .smartPtr :: ws := by
        rcases (parseAsBinaryShape_ok hbinary).2 with rfl | rfl
        · exact hp.1
        · exact dropLast_first hp.1
      exact bind_eq_ok.mpr ⟨(), rejectAttrsOnTuple_canonical hattr,
        bind_eq_ok.mpr ⟨_, parseAsBinaryShape_canonical hbinary, canonical_ok hfirst _ _ _ _ _⟩⟩
    | default | leafOverride _ =>
      obtain ⟨leafSpec, hleaf, hok⟩ := bind_eq_ok.mp h
      cases hok
      exact bind_eq_ok.mpr ⟨_, parseLeafSpec_canonical hp.2 hleaf, canonical_ok hp.1 _ _ _ _ _⟩

theorem lowerNamedFields_canonical : ∀ {fields : List (String × FieldDecl)} {lowered : List FieldIR},
    lowerNamedFields fields = .ok lowered →
      lowerNamedFields (fields.map fun f => (f.1, f.2.canonical)) = .ok (lowered.map FieldIR.canonical)
  | [], _, h => by
    cases h
    rfl
  | (name, field) :: fields, _, h => by
    obtain ⟨first, hfirst, h⟩ := bind_eq_ok.mp h
    obtain ⟨rest, hrest, hok⟩ := bind_eq_ok.mp h
    cases hok
    rw [List.map_append, ← Option.toList_map]
    exact bind_eq_ok.mpr ⟨_, lowerField_canonical hfirst, bind_eq_ok.mpr ⟨_, lowerNamedFields_canonical hrest, rfl⟩⟩

theorem lowerUnnamedFields_canonical : ∀ {fields : List FieldDecl} {index : Nat} {lowered : List FieldIR},
    lowerUnnamedFields index fields = .ok lowered →
      lowerUnnamedFields index (fields.map FieldDecl.canonical) = .ok (lowered.map FieldIR.canonical)
  | [], _, _, h => by
    cases h
    rfl
  | field :: fields, index, _, h => by
    obtain ⟨first, hfirst, h⟩ := bind_eq_ok.mp h
    obtain ⟨rest, hrest, hok⟩ := bind_eq_ok.mp h
    cases hok
    rw [List.map_append, ← Option.toList_map]
    exact bind_eq_ok.mpr ⟨_, lowerField_canonical hfirst, bind_eq_ok.mpr ⟨_, lowerUnnamedFields_canonical hrest, rfl⟩⟩

theorem lowerFields_canonical {fields : Fields} {lowered : List FieldIR} (h : lowerFields fields = .ok lowered) :
    lowerFields fields.canonical = .ok (lowered.map FieldIR.canonical) := by
  cases fields with
  | named fields => exact lowerNamedFields_canonical h
  | unnamed fields => exact lowerUnnamedFields_canonical h
  | unit =>
    cases h
    rfl

end DfDerive
