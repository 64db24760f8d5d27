/-
  DfDerive.TypeAnalysis.Exact — the analysis accepts what has a meaning, and nothing else.

  Every type has a meaning or a reason to be refused (`meaning_or_refusal`), and the analysis
  finds it. So a type is accepted exactly when it has a meaning, which is then the only one
  and what lowering works on (`analyzeType_meaning`), and it is refused exactly for the reason
  the grammar gives (`analyzeType_refusal`).
-/

import DfDerive.TypeAnalysis.MeaningProofs

namespace DfDerive

open Lib FieldType

section
variable {genericParams : List String} {text : FieldType → TypePath}

/-! ## What is refused is refused -/

theorem baseFrom_fails {ty : FieldType} {e : TypeError} (hstays : ty.peelLayer = .ok none)
    (h : rejectUnlessParam genericParams ty = .error e ∨
      rejectUnlessParam genericParams ty = .ok () ∧ FieldType.analyzeBaseType genericParams ty = .error e)
    (p : PeeledType) : baseFrom genericParams p ty = .error e := by
  rw [baseFrom_stays hstays]
  rcases h with h | ⟨hok, h⟩
  · rw [h]
    rfl
  · rw [hok, ok_bind, h]
    rfl

theorem peelLayer_plain {ty : FieldType} {path : List String} (h : ty.IsPlain path) : ty.peelLayer = .ok none := by
  have hwraps : ∀ w inner, ¬ IsWrapper ty w inner := fun w inner hw => hw.not_plain path h
  obtain ⟨leadingColon, rfl⟩ := h
  exact peelLayer_path hwraps

theorem IsPlain.notCollection {ty : FieldType} {path : List String} (h : ty.IsPlain path)
    (hpath : ∀ collection, path ∉ [] :: collectionPaths collection) (collection : UnsupportedCollection) :
    ¬ ty.IsCollection collection := by
  have hspelled : ty.SpelledIn [path] := h.spelledIn (List.mem_singleton_self path)
  refine hspelled.disjoint _ fun p hp => ?_
  rw [List.mem_singleton.mp hp]
  exact hpath collection

/-- A name that no table lists, and no parameter has, is another row type. -/
theorem isForeign_of_plain {ty : FieldType} {name : String} (h : ty.IsPlain [name]) (hparam : name ∉ genericParams)
    (hknown : [name] ∉ knownPaths.map Prod.fst ++ dateTimePaths)
    (hcollection : ∀ collection, [name] ∉ [] :: collectionPaths collection)
    (hother : name ≠ "Duration" ∧ name ≠ "str") : ty.IsForeign genericParams where
  path := by
    obtain ⟨leadingColon, rfl⟩ := h
    exact ⟨none, leadingColon, _, rfl⟩
  notParam := by
    rintro ident ⟨hident, hplain⟩
    cases h.unique hplain
    exact hparam hident
  notWrapped w inner hw := hw.not_plain _ h
  notCow inner hcow := hcow.not_plain _ h
  notCollection := IsPlain.notCollection h hcollection
  notDuration hduration := hother.1 (List.singleton_inj.mp (h.unique hduration))
  notStr hstr := hother.2 (List.singleton_inj.mp (h.unique hstr))
  notKnown base hbase := hbase.notPlain hknown h

theorem baseFrom_collection {ty : FieldType} {collection : UnsupportedCollection} (hparam : ty.NotParam genericParams)
    (h : ty.IsCollection collection) (p : PeeledType) :
    baseFrom genericParams p ty = .error (.unsupportedCollection collection) := by
  have hstays : ty.peelLayer = .ok none := by
    have hwraps : ∀ w inner, ¬ IsWrapper ty w inner := fun _ _ => h.notWrapped
    obtain ⟨leadingColon, path, hpath, arguments, rfl⟩ := h
    exact peelLayer_path hwraps
  refine baseFrom_fails hstays (Or.inl ?_) p
  rw [rejectUnlessParam_notParam hparam, rejectUnsupportedCollectionType_error h]
  rfl

theorem baseFrom_duration {ty : FieldType} (hparam : ty.NotParam genericParams) (h : ty.IsPlain ["Duration"])
    (p : PeeledType) : baseFrom genericParams p ty = .error .bareDuration := by
  have hcollection := IsPlain.notCollection h (by intro collection; cases collection <;> decide)
  refine baseFrom_fails (peelLayer_plain h) (Or.inl ?_) p
  rw [rejectUnlessParam_notParam hparam, rejectUnsupportedCollectionType_ok hcollection, ok_bind,
    rejectBareDuration_error hparam h]
  rfl

theorem baseFrom_str {ty : FieldType} (hparam : ty.NotParam genericParams) (h : ty.IsStr) (p : PeeledType) :
    baseFrom genericParams p ty = .error .bareStr := by
  have hcollection := IsPlain.notCollection h (by intro collection; cases collection <;> decide)
  have hduration : ¬ ty.IsPlain ["Duration"] := fun hd => absurd (hd.unique h) (by decide)
  refine baseFrom_fails (peelLayer_plain h) (Or.inl ?_) p
  rw [rejectUnlessParam_notParam hparam, rejectUnsupportedCollectionType_ok hcollection, ok_bind,
    rejectBareDuration_ok hduration, ok_bind, rejectBareUnsizedLeaf_str h]

theorem baseFrom_slice (elem : FieldType) (p : PeeledType) :
    baseFrom genericParams p (.slice elem) = .error .bareSlice := by
  have hpath : (FieldType.slice elem).NoPath := noPath fun _ _ _ => nofun
  refine baseFrom_fails (hpath.peelLayer fun _ _ _ => nofun) (Or.inl ?_) p
  rw [rejectUnlessParam_notParam (hpath.notParam genericParams),
    rejectUnsupportedCollectionType_ok fun _ => hpath.spelled _, ok_bind, rejectBareDuration_ok (hpath.plain _), ok_bind]
  rfl

/-- A type that is neither a path nor a slice reaches its base. -/
theorem baseFrom_noPath {ty : FieldType} {e : TypeError} (h : ty.NoPath) (hslice : ∀ elem, ty ≠ .slice elem)
    (href : ∀ lifetime mutability elem, ty ≠ .reference lifetime mutability elem)
    (hbase : FieldType.analyzeBaseType genericParams ty = .error e) (p : PeeledType) :
    baseFrom genericParams p ty = .error e :=
  baseFrom_fails (h.peelLayer href) (Or.inr ⟨h.rejectUnlessParam hslice, hbase⟩) p

theorem baseFrom_mutable (lifetime : Option String) (elem : FieldType) (p : PeeledType) :
    baseFrom genericParams p (.reference lifetime true elem) = .error .mutableReference := by
  have hlayer : (FieldType.reference lifetime true elem).peelLayer = .error .mutableReference :=
    peelLayer_eq_error.mpr ⟨rfl, lifetime, elem, rfl⟩
  rw [baseFrom, peelLoop]
  split
  · rename_i heq
    rw [hlayer] at heq
    cases heq
    rfl
  · rename_i heq
    rw [hlayer] at heq
    cases heq
  · rename_i heq
    rw [hlayer] at heq
    cases heq

mutual
theorem Refused.reads {ty : FieldType} {e : TypeError} : Refused genericParams text ty e →
    ∀ p, baseFrom genericParams p ty = .error e
  | .mutableReference => baseFrom_mutable _ _
  | .wrapper hw h => fun p => (baseFrom_wraps hw p).trans (h.reads _)
  | .base h => h.reads

theorem BaseRefused.reads {ty : FieldType} {e : TypeError} : BaseRefused genericParams text ty e →
    ∀ p, baseFrom genericParams p ty = .error e
  | .collection hparam h => baseFrom_collection hparam h
  | .duration hparam h => baseFrom_duration hparam h
  | .str hparam h => baseFrom_str hparam h
  | .slice => baseFrom_slice _
  | .unit => baseFrom_noPath (noPath fun _ _ _ => nofun) (fun _ => nofun) (fun _ _ _ => nofun)
      (by rw [FieldType.analyzeBaseType])
  | .other => baseFrom_noPath (noPath fun _ _ _ => nofun) (fun _ => nofun) (fun _ _ _ => nofun)
      (by rw [FieldType.analyzeBaseType])
  | .tuple h => by
    rename_i elems
    have herror := h.reads
    refine baseFrom_noPath (noPath fun _ _ _ => nofun) (fun _ => nofun) (fun _ _ _ => nofun) ?_
    cases elems with
    | nil => cases h
    | cons elem elems =>
      rw [FieldType.analyzeBaseType, herror]
      rfl

theorem EachRefused.reads {tys : List FieldType} {e : TypeError} : EachRefused genericParams text tys e →
    FieldType.analyzeTypes genericParams tys = .error e
  | .here h => by
    rw [FieldType.analyzeTypes, analyzeType_baseFrom, h.reads]
    rfl
  | .later hmeans h => by
    obtain ⟨a, ha, -⟩ := hmeans.reads.analyzeType
    rw [FieldType.analyzeTypes, ha, ok_bind, h.reads]
    rfl
end

/-! ## Nothing is left over -/

theorem reference_meaning {lifetime : Option String} {mutability : Bool} {elem : FieldType}
    (h : (FieldType.reference lifetime mutability elem).peelLayer = .ok none) :
    ∃ base, BaseMeans genericParams text (.reference lifetime mutability elem) base := by
  rw [peelLayer_reference] at h
  split at h
  · cases h
  · rename_i hmut
    rw [Bool.not_eq_true] at hmut
    subst hmut
    split at h
    · rename_i hunsized
      rcases isUnsized_iff.mpr hunsized with hstr | ⟨inner, rfl⟩
      · exact ⟨_, .borrowedStr hstr⟩
      · by_cases hu8 : inner.IsPlain ["u8"]
        · exact ⟨_, .borrowedBytes hu8⟩
        · exact ⟨_, .borrowedSlice hu8⟩
    · cases h

theorem cow_meaning {ty inner : FieldType} (h : CowOf inner ty) (hunsized : inner.IsUnsized) :
    ∃ base, BaseMeans genericParams text ty base := by
  rcases hunsized with hstr | ⟨elem, rfl⟩
  · exact ⟨_, .cowStr h hstr⟩
  · by_cases hu8 : elem.IsPlain ["u8"]
    · exact ⟨_, .cowBytes h hu8⟩
    · exact ⟨_, .cowSlice h hu8⟩

/-- A path that is no wrapper is one of the tables' or foreign. -/
theorem path_meaning {qself : Option SynType} {leadingColon : Bool} {segments : List FieldSegment}
    (hwraps : ∀ w inner, ¬ IsWrapper (.path qself leadingColon segments) w inner) :
    (∃ base, BaseMeans genericParams text (.path qself leadingColon segments) base) ∨
      ∃ e, BaseRefused genericParams text (.path qself leadingColon segments) e := by
  by_cases hparam : NotParam genericParams (.path qself leadingColon segments)
  · by_cases hcollection : ∃ c, IsCollection c (.path qself leadingColon segments)
    · obtain ⟨c, hc⟩ := hcollection
      exact Or.inr ⟨_, .collection hparam hc⟩
    by_cases hduration : IsPlain ["Duration"] (.path qself leadingColon segments)
    · exact Or.inr ⟨_, .duration hparam hduration⟩
    by_cases hstr : IsStr (.path qself leadingColon segments)
    · exact Or.inr ⟨_, .str hparam hstr⟩
    by_cases hknown : ∃ base, KnownAs base (.path qself leadingColon segments)
    · obtain ⟨base, hbase⟩ := hknown
      exact Or.inl ⟨_, .known hparam hbase⟩
    by_cases hcow : ∃ inner, CowOf inner (.path qself leadingColon segments)
    · obtain ⟨inner, hinner⟩ := hcow
      -- a `Cow` over a sized type would have been taken off
      by_cases hunsized : inner.IsUnsized
      · exact Or.inl (cow_meaning hinner hunsized)
      · exact absurd (.cow hinner hunsized) (hwraps _ _)
    exact Or.inl ⟨_, .struct ⟨⟨_, _, _, rfl⟩, hparam, hwraps, not_exists.mp hcow, not_exists.mp hcollection, hduration,
      hstr, not_exists.mp hknown⟩⟩
  · obtain ⟨ident, hident⟩ := not_forall.mp hparam
    exact Or.inl ⟨_, .generic (not_not.mp hident)⟩

mutual
theorem meaning_or_refusal (ty : FieldType) :
    (∃ rt, Means genericParams text ty rt) ∨ ∃ e, Refused genericParams text ty e := by
  cases h : ty.peelLayer with
  | error e =>
    obtain ⟨rfl, lifetime, elem, rfl⟩ := peelLayer_eq_error.mp h
    exact Or.inr ⟨_, .mutableReference⟩
  | ok layer =>
    cases layer with
    | none =>
      rcases base_meaning_or_refusal ty h with ⟨base, hbase⟩ | ⟨e, he⟩
      · exact Or.inl ⟨_, .base hbase⟩
      · exact Or.inr ⟨e, .base he⟩
    | some layer =>
      obtain ⟨w, inner⟩ := layer
      have hwraps := peelLayer_eq_some.mp h
      rcases meaning_or_refusal inner with ⟨⟨stack, base⟩, hrt⟩ | ⟨e, he⟩
      · exact Or.inl ⟨_, .wrapper hwraps hrt⟩
      · exact Or.inr ⟨e, .wrapper hwraps he⟩
termination_by (sizeOf ty, 1)
decreasing_by
  · exact Prod.Lex.right _ Nat.zero_lt_one
  · exact Prod.Lex.left _ _ (peelLayer_lt h)

theorem base_meaning_or_refusal (ty : FieldType) (h : ty.peelLayer = .ok none) :
    (∃ base, BaseMeans genericParams text ty base) ∨ ∃ e, BaseRefused genericParams text ty e := by
  cases ty with
  | path qself leadingColon segments =>
    refine path_meaning fun w inner hwraps => ?_
    rw [hwraps.peelLayer] at h
    cases h
  | reference lifetime mutability elem => exact Or.inl (reference_meaning h)
  | slice elem => exact Or.inr ⟨_, .slice⟩
  | tuple elems =>
    rcases each_meaning_or_refusal elems with ⟨rts, hrts⟩ | ⟨e, he⟩
    · cases elems with
      | nil => exact Or.inr ⟨_, .unit⟩
      | cons elem elems => exact Or.inl ⟨_, .tuple (List.cons_ne_nil _ _) hrts⟩
    · exact Or.inr ⟨e, .tuple he⟩
  | other ty => exact Or.inr ⟨_, .other⟩
termination_by (sizeOf ty, 0)

theorem each_meaning_or_refusal (tys : List FieldType) :
    (∃ rts, EachMeans genericParams text tys rts) ∨ ∃ e, EachRefused genericParams text tys e := by
  cases tys with
  | nil => exact Or.inl ⟨[], .nil⟩
  | cons ty tys =>
    rcases meaning_or_refusal ty with ⟨rt, hrt⟩ | ⟨e, he⟩
    · rcases each_meaning_or_refusal tys with ⟨rts, hrts⟩ | ⟨e, he⟩
      · exact Or.inl ⟨_, .cons hrt hrts⟩
      · exact Or.inr ⟨e, .later hrt he⟩
    · exact Or.inr ⟨e, .here he⟩
termination_by (sizeOf tys, 0)
end

end

/-! ## One meaning -/

/-- Peeling loses nothing of a stack. -/
theorem peelTypeWrappers_inj {stack stack' : List RawWrapper}
    (hwrappers : (DfDerive.peelTypeWrappers stack).wrappers = (DfDerive.peelTypeWrappers stack').wrappers)
    (hdepth : (DfDerive.peelTypeWrappers stack).outerSmartPtrDepth = (DfDerive.peelTypeWrappers stack').outerSmartPtrDepth) :
    stack = stack' := by
  rw [(peelTypeWrappers_of stack).stack, hwrappers, hdepth]
  exact (peelTypeWrappers_of stack').stack.symm

mutual
theorem analyzeType_inj : ∀ {rt rt' : RustType} {a : AnalyzedType}, DfDerive.analyzeType rt = .ok a →
    DfDerive.analyzeType rt' = .ok a → rt = rt'
  | .mk stack base, .mk stack' base', a, h, h' => by
    rw [DfDerive.analyzeType] at h h'
    obtain ⟨b, hb, h⟩ := bind_eq_ok.mp h
    obtain ⟨b', hb', h'⟩ := bind_eq_ok.mp h'
    cases h
    obtain ⟨hbase, hwrappers, hdepth⟩ := AnalyzedType.mk.inj (Except.ok.inj h')
    rw [analyzeBaseType_inj hb (hbase ▸ hb'), peelTypeWrappers_inj hwrappers hdepth]

theorem analyzeBaseType_inj : ∀ {base base' : RustBase} {a : AnalyzedBase}, DfDerive.analyzeBaseType base = .ok a →
    DfDerive.analyzeBaseType base' = .ok a → base = base'
  | .leaf b, .leaf b', a, h, h' => by
    cases h
    cases h'
    rfl
  | .tuple (element :: elements), .tuple (element' :: elements'), a, h, h' => by
    rw [DfDerive.analyzeBaseType] at h h'
    obtain ⟨first, hfirst, h⟩ := bind_eq_ok.mp h
    obtain ⟨rest, hrest, h⟩ := bind_eq_ok.mp h
    obtain ⟨first', hfirst', h'⟩ := bind_eq_ok.mp h'
    obtain ⟨rest', hrest', h'⟩ := bind_eq_ok.mp h'
    cases h
    cases h'
    rw [analyzeType_inj hfirst hfirst', analyzeTypes_inj hrest hrest']
  | .leaf b, .tuple (element :: elements), a, h, h' => by
    rw [DfDerive.analyzeBaseType] at h'
    obtain ⟨first, -, h'⟩ := bind_eq_ok.mp h'
    obtain ⟨rest, -, h'⟩ := bind_eq_ok.mp h'
    cases h
    cases h'
  | .tuple (element :: elements), .leaf b, a, h, h' => by
    rw [DfDerive.analyzeBaseType] at h
    obtain ⟨first, -, h⟩ := bind_eq_ok.mp h
    obtain ⟨rest, -, h⟩ := bind_eq_ok.mp h
    cases h
    cases h'
  | .tuple [], _, _, h, _ => nomatch h
  | _, .tuple [], _, _, h' => nomatch h'

theorem analyzeTypes_inj : ∀ {rts rts' : List RustType} {as : List AnalyzedType}, DfDerive.analyzeTypes rts = .ok as →
    DfDerive.analyzeTypes rts' = .ok as → rts = rts'
  | [], [], _, _, _ => rfl
  | rt :: rts, rt' :: rts', as, h, h' => by
    rw [DfDerive.analyzeTypes] at h h'
    obtain ⟨first, hfirst, h⟩ := bind_eq_ok.mp h
    obtain ⟨rest, hrest, h⟩ := bind_eq_ok.mp h
    obtain ⟨first', hfirst', h'⟩ := bind_eq_ok.mp h'
    obtain ⟨rest', hrest', h'⟩ := bind_eq_ok.mp h'
    cases h
    cases h'
    rw [analyzeType_inj hfirst hfirst', analyzeTypes_inj hrest hrest']
  | [], rt :: rts, as, h, h' => by
    rw [DfDerive.analyzeTypes] at h'
    obtain ⟨first, -, h'⟩ := bind_eq_ok.mp h'
    obtain ⟨rest, -, h'⟩ := bind_eq_ok.mp h'
    cases h
    cases h'
  | rt :: rts, [], as, h, h' => by
    rw [DfDerive.analyzeTypes] at h
    obtain ⟨first, -, h⟩ := bind_eq_ok.mp h
    obtain ⟨rest, -, h⟩ := bind_eq_ok.mp h
    cases h
    cases h'
end

theorem Means.unique {genericParams : List String} {text : FieldType → TypePath} {ty : FieldType} {rt rt' : RustType}
    (h : Means genericParams text ty rt) (h' : Means genericParams text ty rt') : rt = rt' := by
  obtain ⟨a, ha, hrec⟩ := h.reads.analyzeType
  obtain ⟨a', ha', hrec'⟩ := h'.reads.analyzeType
  rw [ha] at ha'
  cases ha'
  exact analyzeType_inj hrec hrec'

/-! ## The analysis -/

theorem analyzeType_ok_iff (genericParams : List String) (text : FieldType → TypePath) (ty : FieldType) (a : AnalyzedType) :
    (∃ analyzed, FieldType.analyzeType genericParams ty = .ok analyzed ∧ analyzed.recognized text = a) ↔
      ∃ rt, Means genericParams text ty rt ∧ DfDerive.analyzeType rt = .ok a := by
  constructor
  · rintro ⟨analyzed, hok, rfl⟩
    rcases @meaning_or_refusal genericParams text ty with ⟨rt, hrt⟩ | ⟨e, he⟩
    · obtain ⟨found, hfound, hrec⟩ := hrt.reads.analyzeType
      rw [hok] at hfound
      cases hfound
      exact ⟨rt, hrt, hrec⟩
    · rw [analyzeType_baseFrom, he.reads] at hok
      cases hok
  · rintro ⟨rt, hrt, ha⟩
    obtain ⟨found, hfound, hrec⟩ := hrt.reads.analyzeType
    rw [ha] at hrec
    exact ⟨found, hfound, (Except.ok.inj hrec).symm⟩

/-- An accepted type has one meaning, and lowering works on its analysis. -/
theorem analyzeType_meaning (genericParams : List String) (text : FieldType → TypePath) (ty : FieldType) :
    (∀ rt, Means genericParams text ty rt →
      (∃ a, FieldType.analyzeType genericParams ty = .ok a ∧ DfDerive.analyzeType rt = .ok (a.recognized text)) ∧
        ∀ rt', Means genericParams text ty rt' → rt' = rt) ∧
      ((∃ a, FieldType.analyzeType genericParams ty = .ok a) → ∃ rt, Means genericParams text ty rt) := by
  refine ⟨fun rt hrt => ⟨hrt.reads.analyzeType, fun rt' hrt' => hrt'.unique hrt⟩, ?_⟩
  rintro ⟨a, ha⟩
  obtain ⟨rt, hrt, -⟩ := (analyzeType_ok_iff genericParams text ty _).mp ⟨a, ha, rfl⟩
  exact ⟨rt, hrt⟩

theorem analyzeType_refused_iff (genericParams : List String) (text : FieldType → TypePath) (ty : FieldType) (e : TypeError) :
    FieldType.analyzeType genericParams ty = .error e ↔ Refused genericParams text ty e := by
  constructor
  · intro herror
    rcases @meaning_or_refusal genericParams text ty with ⟨rt, hrt⟩ | ⟨e', he⟩
    · obtain ⟨found, hfound, -⟩ := hrt.reads.analyzeType
      rw [herror] at hfound
      cases hfound
    · have hread := he.reads
      rw [analyzeType_baseFrom, hread] at herror
      cases herror
      exact he
  · intro he
    rw [analyzeType_baseFrom, he.reads]
    rfl

/-- A refused type has one reason, which is the error; no type has both a meaning and a reason. -/
theorem analyzeType_refusal (genericParams : List String) (text : FieldType → TypePath) (ty : FieldType) :
    (∀ e, FieldType.analyzeType genericParams ty = .error e ↔ Refused genericParams text ty e) ∧
      ((∃ rt, Means genericParams text ty rt) ↔ ¬ ∃ e, Refused genericParams text ty e) := by
  refine ⟨analyzeType_refused_iff genericParams text ty, ?_, ?_⟩
  · rintro ⟨rt, hrt⟩ ⟨e, he⟩
    obtain ⟨a, ha, -⟩ := hrt.reads.analyzeType
    rw [(analyzeType_refused_iff genericParams text ty e).mpr he] at ha
    cases ha
  · intro hnone
    exact (meaning_or_refusal ty).resolve_right hnone

end DfDerive
