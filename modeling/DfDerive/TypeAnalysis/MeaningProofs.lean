/-
  DfDerive.TypeAnalysis.MeaningProofs — what has a meaning is read that way.

  First what the checks and the readers do on each kind of base, told by which table its path
  is in; then, along a derivation, that the loop takes off the wrappers of the meaning and
  ends at its base (`Means.reads`).
-/

import DfDerive.TypeAnalysis.Analysis
import DfDerive.TypeAnalysis.KnownTypesProofs
import DfDerive.TypeAnalysis.Meaning
import DfDerive.Lib.Runs

namespace DfDerive

open Lib FieldType

namespace FieldType

/-! ## The checks on a base -/

theorem bareGenericParamIdent_eq_some {genericParams : List String} {ty : FieldType} {ident : String} :
    ty.bareGenericParamIdent genericParams = some ident ↔ ty.IsParam genericParams ident := by
  constructor
  · intro h
    unfold bareGenericParamIdent at h
    split at h
    · rename_i leadingColon name
      rw [Option.ite_none_right_eq_some, List.any_eq_true] at h
      obtain ⟨⟨p, hp, heq⟩, hname⟩ := h
      cases hname
      rw [beq_iff_eq] at heq
      exact ⟨heq ▸ hp, leadingColon, rfl⟩
    · cases h
  · rintro ⟨hmem, leadingColon, rfl⟩
    have hany : genericParams.any (· == ident) = true := List.any_eq_true.mpr ⟨ident, hmem, beq_self_eq_true ident⟩
    simp only [bareGenericParamIdent, plain, List.map_cons, List.map_nil, hany, if_true]

theorem NotParam.bareGenericParamIdent {genericParams : List String} {ty : FieldType} (h : ty.NotParam genericParams) :
    ty.bareGenericParamIdent genericParams = none :=
  Option.eq_none_iff_forall_ne_some.mpr fun ident heq => h ident (bareGenericParamIdent_eq_some.mp heq)

theorem rejectUnlessParam_param {genericParams : List String} {ty : FieldType} {ident : String}
    (h : ty.IsParam genericParams ident) : rejectUnlessParam genericParams ty = .ok () := by
  rw [rejectUnlessParam, bareGenericParamIdent_eq_some.mpr h]
  rfl

theorem rejectUnlessParam_notParam {genericParams : List String} {ty : FieldType} (h : ty.NotParam genericParams) :
    rejectUnlessParam genericParams ty = (do
      ty.rejectUnsupportedCollectionType
      ty.rejectBareDuration genericParams
      ty.rejectBareUnsizedLeaf) := by
  rw [rejectUnlessParam, h.bareGenericParamIdent]
  rfl

theorem rejectUnsupportedCollectionType_error {ty : FieldType} {collection : UnsupportedCollection}
    (h : ty.IsCollection collection) :
    ty.rejectUnsupportedCollectionType = .error (.unsupportedCollection collection) := by
  rw [rejectUnsupportedCollectionType, unsupportedCollectionKind_eq_some.mpr h]

theorem rejectUnsupportedCollectionType_ok {ty : FieldType} (h : ∀ collection, ¬ ty.IsCollection collection) :
    ty.rejectUnsupportedCollectionType = .ok () := by
  have hnone : ty.unsupportedCollectionKind = none :=
    Option.eq_none_iff_forall_ne_some.mpr fun c heq => h c (unsupportedCollectionKind_eq_some.mp heq)
  rw [rejectUnsupportedCollectionType, hnone]

theorem rejectBareDuration_error {genericParams : List String} {ty : FieldType} (hparam : ty.NotParam genericParams)
    (h : ty.IsPlain ["Duration"]) : ty.rejectBareDuration genericParams = .error .bareDuration := by
  obtain ⟨leadingColon, rfl⟩ := h
  have hnot : genericParams.any (· == "Duration") = false := by
    rw [← Bool.not_eq_true, List.any_eq_true]
    rintro ⟨p, hp, heq⟩
    exact hparam "Duration" ⟨beq_iff_eq.mp heq ▸ hp, leadingColon, rfl⟩
  simp [rejectBareDuration, plain, hnot]

theorem rejectBareDuration_ok {genericParams : List String} {ty : FieldType} (h : ¬ ty.IsPlain ["Duration"]) :
    ty.rejectBareDuration genericParams = .ok () := by
  unfold rejectBareDuration
  split
  · rename_i leadingColon ident
    refine if_neg fun hident => h ?_
    rw [hident.1]
    exact ⟨leadingColon, rfl⟩
  · rfl

theorem rejectBareUnsizedLeaf_str {ty : FieldType} (h : ty.IsStr) : ty.rejectBareUnsizedLeaf = .error .bareStr := by
  unfold rejectBareUnsizedLeaf
  rw [if_pos (isBareStrType_iff.mpr h)]

theorem rejectBareUnsizedLeaf_ok {ty : FieldType} (h : ¬ ty.IsUnsized) : ty.rejectBareUnsizedLeaf = .ok () := by
  obtain ⟨hstr, hslice⟩ := not_or.mp h
  unfold rejectBareUnsizedLeaf
  rw [if_neg fun hs => hstr (isBareStrType_iff.mp hs)]
  split
  · rename_i elem
    exact absurd ⟨elem, rfl⟩ hslice
  · rfl

theorem rejectUnlessParam_ok {genericParams : List String} {ty : FieldType} (hparam : ty.NotParam genericParams)
    (hcollection : ∀ collection, ¬ ty.IsCollection collection) (hduration : ¬ ty.IsPlain ["Duration"])
    (hsized : ¬ ty.IsUnsized) : rejectUnlessParam genericParams ty = .ok () := by
  rw [rejectUnlessParam_notParam hparam, rejectUnsupportedCollectionType_ok hcollection, ok_bind,
    rejectBareDuration_ok hduration, ok_bind, rejectBareUnsizedLeaf_ok hsized]

/-! ## Types that are no paths -/

/-- Nothing that is told by a path applies to it. -/
structure NoPath (ty : FieldType) : Prop where
  plain : ∀ p, ¬ ty.IsPlain p
  spelled : ∀ paths, ¬ ty.SpelledIn paths

theorem noPath {ty : FieldType} (h : ∀ qself leadingColon segments, ty ≠ .path qself leadingColon segments) :
    ty.NoPath where
  plain := by
    rintro p ⟨leadingColon, heq⟩
    exact h _ _ _ heq
  spelled := by
    rintro paths ⟨leadingColon, path, -, arguments, heq⟩
    exact h _ _ _ heq

theorem NoPath.notParam {ty : FieldType} (h : ty.NoPath) (genericParams : List String) : ty.NotParam genericParams :=
  fun ident hparam => h.plain [ident] hparam.2

theorem NoPath.rejectUnlessParam {genericParams : List String} {ty : FieldType} (h : ty.NoPath)
    (hslice : ∀ elem, ty ≠ .slice elem) : rejectUnlessParam genericParams ty = .ok () :=
  rejectUnlessParam_ok (h.notParam genericParams) (fun _ => h.spelled _) (h.plain _) <| by
    rintro (hstr | ⟨elem, heq⟩)
    · exact h.plain _ hstr
    · exact hslice elem heq

theorem NoPath.notWrapped {ty : FieldType} (h : ty.NoPath) (href : ∀ lifetime elem, ty ≠ .reference lifetime false elem)
    (w : RawWrapper) (inner : FieldType) : ¬ IsWrapper ty w inner := by
  intro hwraps
  cases hwraps with
  | option hw => exact h.spelled _ hw.spelledIn
  | vec hw => exact h.spelled _ hw.spelledIn
  | smartPtr hw => exact h.spelled _ hw.spelledIn
  | cow hw => exact h.spelled _ hw.spelledIn
  | reference => exact href _ _ rfl

theorem NoPath.peelLayer {ty : FieldType} (h : ty.NoPath)
    (href : ∀ lifetime mutability elem, ty ≠ .reference lifetime mutability elem) : ty.peelLayer = .ok none :=
  peelLayer_eq_none (h.notWrapped fun _ _ => href _ _ _) fun _ _ => href _ _ _

theorem peelLayer_tuple (elems : List FieldType) : (FieldType.tuple elems).peelLayer = .ok none :=
  NoPath.peelLayer (noPath fun _ _ _ => nofun) fun _ _ _ => nofun

/-! ## A path that stays -/

theorem KnownAs.notCollection {ty : FieldType} {base : KnownBase} (h : ty.KnownAs base)
    (collection : UnsupportedCollection) : ¬ ty.IsCollection collection := by
  rcases h with ⟨path, hmem, hplain⟩ | ⟨-, hdatetime⟩
  · have hspelled : ty.SpelledIn (knownPaths.map Prod.fst) := hplain.spelledIn (List.mem_map_of_mem hmem)
    refine hspelled.disjoint _ ?_
    cases collection <;> decide
  · obtain ⟨leadingColon, path, hpath, args, -, heq⟩ := hdatetime
    have hspelled : ty.SpelledIn dateTimePaths := ⟨leadingColon, path, hpath, _, heq⟩
    refine hspelled.disjoint _ ?_
    cases collection <;> decide

theorem KnownAs.notPlain {ty : FieldType} {base : KnownBase} (h : ty.KnownAs base) {p : List String}
    (hp : p ∉ knownPaths.map Prod.fst ++ dateTimePaths) : ¬ ty.IsPlain p := by
  intro hplain
  rcases h with ⟨path, hmem, hpath⟩ | ⟨-, hdatetime⟩
  · exact hp (List.mem_append_left _ (hplain.unique hpath ▸ List.mem_map_of_mem hmem))
  · obtain ⟨leadingColon, path, hpath, args, -, rfl⟩ := hdatetime
    have hne : path ≠ [] := (by decide : ∀ path ∈ dateTimePaths, path ≠ []) path hpath
    have hnone := hplain.angleArgs
    rw [angleArgs_applied none leadingColon hne] at hnone
    cases hnone

theorem KnownAs.notCow {ty inner : FieldType} {base : KnownBase} (h : ty.KnownAs base) : ¬ CowOf inner ty := by
  intro hcow
  rcases h with ⟨path, -, hplain⟩ | ⟨-, hdatetime⟩
  · exact hcow.not_plain path hplain
  · obtain ⟨leadingColon, path, hpath, args, -, heq⟩ := hdatetime
    have hspelled : ty.SpelledIn dateTimePaths := ⟨leadingColon, path, hpath, _, heq⟩
    exact hspelled.disjoint cowPaths (by decide) hcow.spelledIn

theorem KnownAs.notWrapped {ty inner : FieldType} {base : KnownBase} {w : RawWrapper} (h : ty.KnownAs base) :
    ¬ IsWrapper ty w inner := by
  intro hwraps
  rcases h with ⟨path, -, hplain⟩ | ⟨-, hdatetime⟩
  · exact hwraps.not_plain path hplain
  · obtain ⟨leadingColon, path, hpath, args, -, heq⟩ := hdatetime
    have hspelled : ty.SpelledIn dateTimePaths := ⟨leadingColon, path, hpath, _, heq⟩
    cases hwraps with
    | option hw => exact hspelled.disjoint optionPaths (by decide) hw.spelledIn
    | vec hw => exact hspelled.disjoint vecPaths (by decide) hw.spelledIn
    | smartPtr hw => exact hspelled.disjoint smartPtrPaths (by decide) hw.spelledIn
    | cow hw => exact hspelled.disjoint cowPaths (by decide) hw.spelledIn
    | reference => cases heq

theorem KnownAs.path {ty : FieldType} {base : KnownBase} (h : ty.KnownAs base) :
    ∃ leadingColon segments, ty = .path none leadingColon segments := by
  rcases h with ⟨path, -, leadingColon, rfl⟩ | ⟨-, leadingColon, path, -, args, -, rfl⟩ <;>
    exact ⟨leadingColon, _, rfl⟩

/-- A `Cow` over what has no size stays. -/
theorem CowOf.notWrapped {ty inner : FieldType} (h : CowOf inner ty) (hunsized : inner.IsUnsized) (w : RawWrapper)
    (inner' : FieldType) : ¬ IsWrapper ty w inner' := by
  intro hwraps
  cases hwraps with
  | option hw => exact h.spelledIn.disjoint optionPaths (by decide) hw.spelledIn
  | vec hw => exact h.spelledIn.disjoint vecPaths (by decide) hw.spelledIn
  | smartPtr hw => exact h.spelledIn.disjoint smartPtrPaths (by decide) hw.spelledIn
  | cow hw hsized => exact hsized (h.unique hw ▸ hunsized)
  | reference =>
    obtain ⟨_, _, _, _, _, heq⟩ := h
    cases heq

theorem CowOf.notCollection {ty inner : FieldType} (h : CowOf inner ty) (collection : UnsupportedCollection) :
    ¬ ty.IsCollection collection := by
  refine h.spelledIn.disjoint _ ?_
  cases collection <;> decide

theorem CowOf.path {ty inner : FieldType} (h : CowOf inner ty) :
    ∃ leadingColon segments, ty = .path none leadingColon segments := by
  obtain ⟨leadingColon, path, -, before, after, rfl⟩ := h
  exact ⟨leadingColon, _, rfl⟩

theorem CowOf.notParam {ty inner : FieldType} (h : CowOf inner ty) (genericParams : List String) :
    ty.NotParam genericParams := fun _ hparam => h.not_plain _ hparam.2

theorem isU8Type_iff {ty : FieldType} : ty.isU8Type = true ↔ ty.IsPlain ["u8"] := by
  constructor
  · intro h
    unfold isU8Type at h
    split at h
    · rename_i leadingColon ident arguments
      rw [Bool.and_eq_true, beq_iff_eq, FieldArguments.isNone_iff] at h
      obtain ⟨rfl, rfl⟩ := h
      exact ⟨leadingColon, rfl⟩
    · cases h
  · rintro ⟨leadingColon, rfl⟩
    rfl

theorem IsCollection.notWrapped {ty inner : FieldType} {collection : UnsupportedCollection} {w : RawWrapper}
    (h : ty.IsCollection collection) : ¬ IsWrapper ty w inner := by
  have hoption := h.disjoint optionPaths (by cases collection <;> decide)
  have hvec := h.disjoint vecPaths (by cases collection <;> decide)
  have hptr := h.disjoint smartPtrPaths (by cases collection <;> decide)
  have hcow := h.disjoint cowPaths (by cases collection <;> decide)
  intro hwraps
  cases hwraps with
  | option hw => exact hoption hw.spelledIn
  | vec hw => exact hvec hw.spelledIn
  | smartPtr hw => exact hptr hw.spelledIn
  | cow hw => exact hcow hw.spelledIn
  | reference =>
    obtain ⟨_, _, _, _, heq⟩ := h
    cases heq

/-- A path on which the loop stops. -/
theorem peelLayer_path {qself : Option SynType} {leadingColon : Bool} {segments : List FieldSegment}
    (h : ∀ w inner, ¬ IsWrapper (.path qself leadingColon segments) w inner) :
    (FieldType.path qself leadingColon segments).peelLayer = .ok none :=
  peelLayer_eq_none h nofun

/-! ## The base of a path -/

section
variable {genericParams : List String} {ty : FieldType}

theorem analyzePathBase_param {ident : String} (h : ty.IsParam genericParams ident) :
    analyzePathBase genericParams ty = .generic ident := by
  rw [analyzePathBase, bareGenericParamIdent_eq_some.mpr h]

theorem analyzePathBase_cow {inner : FieldType} {base : AnalyzedFieldBase} (h : CowOf inner ty)
    (hbase : ty.analyzeCowBase = some base) : analyzePathBase genericParams ty = base := by
  rw [analyzePathBase, (h.notParam genericParams).bareGenericParamIdent, hbase]

theorem analyzeCowBase_none (h : ∀ inner, CowOf inner ty → ¬ inner.IsUnsized) : ty.analyzeCowBase = none := by
  rw [analyzeCowBase, Option.bind_eq_none_iff]
  intro inner hinner
  obtain ⟨hstr, hslice⟩ := not_or.mp (h inner (cowInnerType_eq_some.mp hinner))
  rw [if_neg fun hs => hstr (isBareStrType_iff.mp hs)]
  split
  · rename_i elem
    exact absurd ⟨elem, rfl⟩ hslice
  · rfl

theorem analyzePathBase_known {base : KnownBase} (hparam : ty.NotParam genericParams) (h : ty.KnownAs base)
    (hduration : ¬ ty.IsPlain ["Duration"]) : analyzePathBase genericParams ty = base.intoAnalyzedBase := by
  have hcow : ty.analyzeCowBase = none := analyzeCowBase_none fun inner hinner => absurd hinner h.notCow
  rw [analyzePathBase, hparam.bareGenericParamIdent, hcow, (classifyKnownBase_eq_some hduration).mpr h]

theorem IsForeign.analyzePathBase (h : ty.IsForeign genericParams) : analyzePathBase genericParams ty = .struct ty := by
  have hcow : ty.analyzeCowBase = none := analyzeCowBase_none fun inner hinner => absurd hinner (h.notCow inner)
  have hknown : ty.classifyKnownBase = none :=
    Option.eq_none_iff_forall_ne_some.mpr fun base heq =>
      h.notKnown base ((classifyKnownBase_eq_some h.notDuration).mp heq)
  rw [FieldType.analyzePathBase, h.notParam.bareGenericParamIdent, hcow, hknown]

theorem analyzeBaseType_path (h : ∃ qself leadingColon segments, ty = .path qself leadingColon segments) :
    analyzeBaseType genericParams ty = .ok (analyzePathBase genericParams ty) := by
  obtain ⟨qself, leadingColon, segments, rfl⟩ := h
  rw [analyzeBaseType]

end

end FieldType

/-! ## What has a meaning is read -/

section
variable {genericParams : List String} {text : FieldType → TypePath}

/-- What the analysis makes of a type without wrappers. -/
structure ReadsBase (genericParams : List String) (text : FieldType → TypePath) (ty : FieldType) (base : RustBase) :
    Prop where
  stays : ty.peelLayer = .ok none
  passes : rejectUnlessParam genericParams ty = .ok ()
  reads : ∃ a, FieldType.analyzeBaseType genericParams ty = .ok a ∧ DfDerive.analyzeBaseType base = .ok (a.recognized text)

theorem KnownBase.recognized_leafBase (base : KnownBase) :
    base.intoAnalyzedBase.recognized text = .leaf base.leafBase := by
  cases base <;> rfl

theorem readsBase_reference {lifetime : Option String} {elem : FieldType} {a : AnalyzedFieldBase} {base : LeafBase}
    (hunsized : elem.IsUnsized) (ha : borrowedReferenceBase elem = some a) (hbase : a.recognized text = .leaf base) :
    ReadsBase genericParams text (.reference lifetime false elem) (.leaf base) where
  stays := by
    rw [peelLayer_reference, if_neg Bool.false_ne_true, if_pos (isUnsized_iff.mp hunsized)]
  passes := NoPath.rejectUnlessParam (noPath fun _ _ _ => nofun) fun _ => nofun
  reads := ⟨a, by rw [FieldType.analyzeBaseType, ha], by rw [DfDerive.analyzeBaseType, hbase]⟩

theorem readsBase_cow {ty inner : FieldType} {a : AnalyzedFieldBase} {base : LeafBase} (h : CowOf inner ty)
    (hunsized : inner.IsUnsized) (ha : ty.analyzeCowBase = some a) (hbase : a.recognized text = .leaf base) :
    ReadsBase genericParams text ty (.leaf base) where
  stays := by
    have hwraps := h.notWrapped hunsized
    obtain ⟨leadingColon, segments, rfl⟩ := h.path
    exact peelLayer_path hwraps
  passes := by
    refine rejectUnlessParam_ok (h.notParam genericParams) h.notCollection (h.not_plain _) ?_
    rintro (hstr | ⟨elem, rfl⟩)
    · exact h.not_plain _ hstr
    · obtain ⟨_, _, heq⟩ := h.path
      cases heq
  reads := by
    have hpath : ∃ qself leadingColon segments, ty = .path qself leadingColon segments :=
      ⟨none, h.path.choose, h.path.choose_spec.choose, h.path.choose_spec.choose_spec⟩
    exact ⟨a, by rw [analyzeBaseType_path hpath, analyzePathBase_cow h ha], by rw [DfDerive.analyzeBaseType, hbase]⟩

theorem cowOf_analyzeCowBase {ty inner : FieldType} (h : CowOf inner ty) :
    ty.analyzeCowBase =
      (if inner.isBareStrType then some .cowStr
      else match inner with
        | .slice elem => some (if elem.isU8Type then .cowBytes else .cowSlice)
        | _ => none) := by
  have hinner := cowInnerType_eq_some.mpr h
  unfold analyzeCowBase
  cases inner <;> rw [hinner] <;> rfl

theorem readsBase_param {ty : FieldType} {ident : String} (h : ty.IsParam genericParams ident) :
    ReadsBase genericParams text ty (.leaf (.generic ident)) where
  stays := by
    obtain ⟨-, leadingColon, rfl⟩ := h
    exact peelLayer_path fun w inner hwraps => hwraps.not_plain _ ⟨leadingColon, rfl⟩
  passes := rejectUnlessParam_param h
  reads := by
    have hpath : ∃ qself leadingColon segments, ty = .path qself leadingColon segments :=
      ⟨none, h.2.choose, _, h.2.choose_spec⟩
    exact ⟨.generic ident, by rw [analyzeBaseType_path hpath, analyzePathBase_param h], rfl⟩

theorem readsBase_known {ty : FieldType} {base : KnownBase} (hparam : ty.NotParam genericParams) (h : ty.KnownAs base) :
    ReadsBase genericParams text ty (.leaf base.leafBase) where
  stays := by
    have hwraps : ∀ w inner, ¬ IsWrapper ty w inner := fun _ _ => h.notWrapped
    obtain ⟨leadingColon, segments, rfl⟩ := h.path
    exact peelLayer_path hwraps
  passes := by
    refine rejectUnlessParam_ok hparam h.notCollection (h.notPlain (by decide)) ?_
    rintro (hstr | ⟨elem, rfl⟩)
    · exact h.notPlain (by decide) hstr
    · obtain ⟨_, _, heq⟩ := h.path
      cases heq
  reads := by
    have hpath : ∃ qself leadingColon segments, ty = .path qself leadingColon segments :=
      ⟨none, h.path.choose, h.path.choose_spec.choose, h.path.choose_spec.choose_spec⟩
    refine ⟨base.intoAnalyzedBase, ?_, ?_⟩
    · rw [analyzeBaseType_path hpath, analyzePathBase_known hparam h (h.notPlain (by decide))]
    · rw [DfDerive.analyzeBaseType, KnownBase.recognized_leafBase]

theorem readsBase_foreign {ty : FieldType} (h : ty.IsForeign genericParams) :
    ReadsBase genericParams text ty (.leaf (.struct (text ty))) where
  stays := by
    have hwraps := h.notWrapped
    obtain ⟨qself, leadingColon, segments, rfl⟩ := h.path
    exact peelLayer_path hwraps
  passes := by
    refine rejectUnlessParam_ok h.notParam h.notCollection h.notDuration ?_
    rintro (hstr | ⟨elem, rfl⟩)
    · exact h.notStr hstr
    · obtain ⟨_, _, _, heq⟩ := h.path
      cases heq
  reads := ⟨.struct ty, by rw [analyzeBaseType_path h.path, h.analyzePathBase], rfl⟩

/-- What the analysis makes of a list of elements. -/
def ReadsEach (genericParams : List String) (text : FieldType → TypePath) (tys : List FieldType) (rts : List RustType) :
    Prop :=
  ∃ as, FieldType.analyzeTypes genericParams tys = .ok as ∧ DfDerive.analyzeTypes rts = .ok (recognizedElements text as)

theorem readsBase_tuple {elems : List FieldType} {elements : List RustType} (hne : elems ≠ [])
    (h : ReadsEach genericParams text elems elements) :
    ReadsBase genericParams text (.tuple elems) (.tuple elements) where
  stays := peelLayer_tuple elems
  passes := NoPath.rejectUnlessParam (noPath fun _ _ _ => nofun) fun _ => nofun
  reads := by
    obtain ⟨as, has, hrec⟩ := h
    refine ⟨.tuple as, ?_, ?_⟩
    · cases elems with
      | nil => exact absurd rfl hne
      | cons elem elems => rw [FieldType.analyzeBaseType, has, ok_bind]
    · cases elements with
      | nil =>
        cases elems with
        | nil => exact absurd rfl hne
        | cons elem elems =>
          -- no element is dropped
          rw [FieldType.analyzeTypes] at has
          obtain ⟨first, -, has⟩ := bind_eq_ok.mp has
          obtain ⟨rest, -, has⟩ := bind_eq_ok.mp has
          cases has
          cases hrec
      | cons element elements =>
        rw [DfDerive.analyzeTypes] at hrec
        obtain ⟨first, hfirst, hrec⟩ := bind_eq_ok.mp hrec
        obtain ⟨rest, hrest, hrec⟩ := bind_eq_ok.mp hrec
        rw [DfDerive.analyzeBaseType, hfirst, ok_bind, hrest, ok_bind]
        exact congrArg (fun es => Except.ok (AnalyzedBase.tuple es)) (Except.ok.inj hrec)

/-- The loop and the base it ends at, from a state of the loop on. -/
def baseFrom (genericParams : List String) (p : PeeledType) (ty : FieldType) :
    Except TypeError (PeeledType × AnalyzedFieldBase) := do
  let (p, current) ← peelLoop p ty
  rejectUnlessParam genericParams current
  let base ← FieldType.analyzeBaseType genericParams current
  .ok (p, base)

theorem analyzeType_baseFrom (ty : FieldType) :
    FieldType.analyzeType genericParams ty = (do
      let (p, base) ← baseFrom genericParams ⟨[], 0⟩ ty
      .ok (.mk base p.wrappers ty p.outerSmartPtrDepth)) := by
  rw [FieldType.analyzeType, baseFrom]
  split
  · rename_i heq
    rw [FieldType.peelTypeWrappers] at heq
    rw [heq]
    rfl
  · rename_i p current heq
    rw [FieldType.peelTypeWrappers] at heq
    simp only [heq, ok_bind, bind_assoc]

theorem baseFrom_wraps {ty inner : FieldType} {w : RawWrapper} (h : IsWrapper ty w inner) (p : PeeledType) :
    baseFrom genericParams p ty = baseFrom genericParams (p.step w) inner := by
  have hloop : peelLoop p ty = peelLoop (p.step w) inner := by
    rw [peelLoop]
    split
    · rename_i heq
      rw [h.peelLayer] at heq
      cases heq
    · rename_i heq
      rw [h.peelLayer] at heq
      cases heq
    · rename_i heq
      rw [h.peelLayer] at heq
      cases heq
      rfl
  rw [baseFrom, hloop, baseFrom]

theorem baseFrom_stays {ty : FieldType} (h : ty.peelLayer = .ok none) (p : PeeledType) :
    baseFrom genericParams p ty = (do
      rejectUnlessParam genericParams ty
      let base ← FieldType.analyzeBaseType genericParams ty
      .ok (p, base)) := by
  have hloop : peelLoop p ty = .ok (p, ty) := by
    rw [peelLoop]
    split
    · rename_i heq
      rw [h] at heq
      cases heq
    · rfl
    · rename_i heq
      rw [h] at heq
      cases heq
  rw [baseFrom, hloop, ok_bind]

/-- The stack of a meaning is what the loop takes off, and its base what it ends at. -/
def ReadsFrom (genericParams : List String) (text : FieldType → TypePath) (ty : FieldType) (rt : RustType) : Prop :=
  ∃ a, (∀ p, baseFrom genericParams p ty = .ok (rt.stack.foldl PeeledType.step p, a)) ∧
    DfDerive.analyzeBaseType rt.base = .ok (a.recognized text)

theorem ReadsBase.readsFrom {ty : FieldType} {base : RustBase} (h : ReadsBase genericParams text ty base) :
    ReadsFrom genericParams text ty (.mk [] base) := by
  obtain ⟨a, ha, hrec⟩ := h.reads
  exact ⟨a, fun p => by rw [baseFrom_stays h.stays, h.passes, ok_bind, ha, ok_bind]; rfl, hrec⟩

theorem ReadsFrom.analyzeType {ty : FieldType} {rt : RustType} (h : ReadsFrom genericParams text ty rt) :
    ∃ a, FieldType.analyzeType genericParams ty = .ok a ∧ DfDerive.analyzeType rt = .ok (a.recognized text) := by
  obtain ⟨stack, base⟩ := rt
  obtain ⟨a, ha, hrec⟩ := h
  refine ⟨_, by rw [analyzeType_baseFrom, ha, ok_bind], ?_⟩
  rw [RustType.base_mk] at hrec
  rw [DfDerive.analyzeType, hrec, ok_bind]
  rfl

mutual
theorem Means.reads {ty : FieldType} {rt : RustType} : Means genericParams text ty rt →
    ReadsFrom genericParams text ty rt
  | .wrapper hw h => by
    obtain ⟨a, ha, hrec⟩ := h.reads
    exact ⟨a, fun p => (baseFrom_wraps hw p).trans (ha _), hrec⟩
  | .base h => h.reads.readsFrom

theorem BaseMeans.reads {ty : FieldType} {base : RustBase} : BaseMeans genericParams text ty base →
    ReadsBase genericParams text ty base
  | .borrowedStr h => readsBase_reference (a := .borrowedStr) (Or.inl h)
      (by simp [borrowedReferenceBase, isBareStrType_iff.mpr h]) rfl
  | .borrowedBytes h => readsBase_reference (a := .borrowedBytes) (Or.inr ⟨_, rfl⟩)
      (by simp [borrowedReferenceBase, isBareStrType, isU8Type_iff.mpr h]) rfl
  | .borrowedSlice h => readsBase_reference (a := .borrowedSlice) (Or.inr ⟨_, rfl⟩)
      (by simp [borrowedReferenceBase, isBareStrType, isU8Type_iff.not.mpr h]) rfl
  | .cowStr hcow h => readsBase_cow hcow (Or.inl h)
      (by rw [cowOf_analyzeCowBase hcow, if_pos (isBareStrType_iff.mpr h)]) rfl
  | .cowBytes hcow h => readsBase_cow hcow (a := .cowBytes) (Or.inr ⟨_, rfl⟩)
      (by simp [cowOf_analyzeCowBase hcow, isBareStrType, isU8Type_iff.mpr h]) rfl
  | .cowSlice hcow h => readsBase_cow hcow (a := .cowSlice) (Or.inr ⟨_, rfl⟩)
      (by simp [cowOf_analyzeCowBase hcow, isBareStrType, isU8Type_iff.not.mpr h]) rfl
  | .generic h => readsBase_param h
  | .known hparam h => readsBase_known hparam h
  | .struct h => readsBase_foreign h
  | .tuple hne h => readsBase_tuple hne h.reads

theorem EachMeans.reads {tys : List FieldType} {rts : List RustType} : EachMeans genericParams text tys rts →
    ReadsEach genericParams text tys rts
  | .nil => ⟨[], by rw [FieldType.analyzeTypes], rfl⟩
  | .cons h hs => by
    obtain ⟨a, ha, harec⟩ := h.reads.analyzeType
    obtain ⟨as, has, hrec⟩ := hs.reads
    exact ⟨a :: as, by rw [FieldType.analyzeTypes, ha, ok_bind, has, ok_bind],
      by rw [DfDerive.analyzeTypes, harec, ok_bind, hrec, ok_bind]; rfl⟩
end

end

end DfDerive
