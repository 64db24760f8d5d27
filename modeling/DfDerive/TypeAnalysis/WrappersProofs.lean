/-
  DfDerive.TypeAnalysis.WrappersProofs — a wrapper comes off exactly where it is written.

  Each of the readers of the loop finds a type under a wrapper when the type is spelled as
  that wrapper (`peelOption_eq_some`, `peelVec_eq_some`, `peelSmartPtr_eq_some`,
  `cowInnerType_eq_some`), and what it finds is smaller (`peelLayer_lt`).
-/

import DfDerive.Lib.Runs
import DfDerive.TypeAnalysis.Spellings
import DfDerive.TypeAnalysis.Wrappers

namespace DfDerive

namespace FieldType

/-! ## One argument -/

theorem singleTypeArg_eq_some {args : List FieldArgument} {ty : FieldType} :
    singleTypeArg args = some ty ↔ args = [.type ty] := by
  constructor
  · intro h
    unfold singleTypeArg at h
    split at h
    · cases h; rfl
    · cases h
  · rintro rfl
    rfl

theorem angleArgs_applied (qself : Option SynType) (leadingColon : Bool) {path : List String} (hpath : path ≠ [])
    (args : List FieldArgument) :
    (FieldType.path qself leadingColon (applied path (.angleBracketed args))).angleArgs = some args := by
  obtain ⟨leaf, hleaf⟩ := applied_getLast? hpath (.angleBracketed args)
  simp only [angleArgs, hleaf]

theorem angleArgs_of_applied {qself : Option SynType} {leadingColon : Bool} {path : List String} (hpath : path ≠ [])
    {arguments : FieldArguments} {args : List FieldArgument}
    (h : (FieldType.path qself leadingColon (applied path arguments)).angleArgs = some args) :
    arguments = .angleBracketed args := by
  obtain ⟨leaf, hleaf⟩ := applied_getLast? hpath arguments
  simp only [angleArgs, hleaf] at h
  cases arguments with
  | none => cases h
  | angleBracketed args' => cases h; rfl
  | parenthesized inputs output => cases h

theorem wrapperPathMatches_iff {ty : FieldType} {bare : String} {qualified : List String} (hne : qualified ≠ []) :
    ty.wrapperPathMatches bare qualified = true ↔
      ∃ leadingColon, ∃ path ∈ [[bare], qualified], ∃ arguments, ty = .path none leadingColon (applied path arguments) := by
  simp only [wrapperPathMatches, Option.any_eq_true, pathView_eq_some, Bool.or_eq_true,
    PathView.exactWithLeafArgs_iff hne, PathView.exactWithLeafArgs_iff (List.cons_ne_nil bare [])]
  constructor
  · rintro ⟨path, ⟨leadingColon, rfl⟩, ⟨arguments, rfl⟩ | ⟨arguments, rfl⟩⟩
    · exact ⟨leadingColon, [bare], by simp, arguments, rfl⟩
    · exact ⟨leadingColon, qualified, by simp, arguments, rfl⟩
  · rintro ⟨leadingColon, path, hpath, arguments, rfl⟩
    refine ⟨_, ⟨leadingColon, rfl⟩, ?_⟩
    rcases List.mem_pair.mp hpath with rfl | rfl
    · exact Or.inl ⟨arguments, rfl⟩
    · exact Or.inr ⟨arguments, rfl⟩

theorem extractInnerType_eq_some {ty inner : FieldType} {wrapper : String} {qualified : List String}
    (hne : qualified ≠ []) :
    ty.extractInnerType wrapper qualified = some inner ↔ AppliesTo [[wrapper], qualified] inner ty := by
  have hpaths : ∀ path ∈ [[wrapper], qualified], path ≠ [] := by
    intro path hpath
    rcases List.mem_pair.mp hpath with rfl | rfl
    · exact List.cons_ne_nil _ _
    · exact hne
  rw [extractInnerType, Option.ite_none_right_eq_some, wrapperPathMatches_iff hne, Option.bind_eq_some_iff]
  constructor
  · rintro ⟨⟨leadingColon, path, hpath, arguments, rfl⟩, args, hargs, hsingle⟩
    rw [singleTypeArg_eq_some] at hsingle
    rw [angleArgs_of_applied (hpaths path hpath) hargs, hsingle]
    exact ⟨leadingColon, path, hpath, rfl⟩
  · rintro ⟨leadingColon, path, hpath, rfl⟩
    exact ⟨⟨leadingColon, path, hpath, _, rfl⟩, _, angleArgs_applied none leadingColon (hpaths path hpath) _, rfl⟩

/-! ## Tables of paths -/

theorem AppliesTo.unique {ps qs : List (List String)} {inner inner' ty : FieldType} (hps : [] ∉ ps)
    (h : AppliesTo ps inner ty) (h' : AppliesTo qs inner' ty) : inner = inner' := by
  obtain ⟨leadingColon, p, hp, rfl⟩ := h
  obtain ⟨_, q, hq, heq⟩ := h'
  obtain ⟨-, -, heq⟩ := FieldType.path.inj heq
  obtain ⟨-, hargs⟩ := applied_inj (fun hnil => hps (hnil ▸ hp)) heq
  cases hargs
  rfl

theorem AppliesTo.congr {ps qs : List (List String)} {inner ty : FieldType} (h : ∀ p, p ∈ ps ↔ p ∈ qs) :
    AppliesTo ps inner ty ↔ AppliesTo qs inner ty := by
  simp only [AppliesTo, h]

/-- Two readers of wrappers, one after the other. -/
theorem orElse_appliesTo {ty : FieldType} {ps qs : List (List String)} {a b : Option FieldType} (hps : [] ∉ ps)
    (ha : ∀ inner, a = some inner ↔ AppliesTo ps inner ty) (hb : ∀ inner, b = some inner ↔ AppliesTo qs inner ty)
    (inner : FieldType) : (a.orElse fun _ => b) = some inner ↔ AppliesTo (ps ++ qs) inner ty := by
  have happend : AppliesTo (ps ++ qs) inner ty ↔ AppliesTo ps inner ty ∨ AppliesTo qs inner ty := by
    simp only [AppliesTo, List.mem_append, or_and_right, exists_or]
  rw [happend]
  cases h : a with
  | none =>
    have hnone : ¬ AppliesTo ps inner ty := fun happ => by
      rw [← ha, h] at happ
      cases happ
    rw [Option.orElse_none, hb]
    exact (or_iff_right hnone).symm
  | some found =>
    have hfound := (ha found).mp h
    rw [Option.orElse_some]
    constructor
    · intro heq
      cases heq
      exact Or.inl hfound
    · rintro (happ | happ)
      · exact congrArg some (hfound.unique hps happ)
      · exact congrArg some (hfound.unique hps happ)

theorem peelOption_eq_some {ty inner : FieldType} : ty.peelOption = some inner ↔ AppliesTo optionPaths inner ty := by
  rw [peelOption, orElse_appliesTo (by simp) (fun _ => extractInnerType_eq_some (by simp))
    fun _ => extractInnerType_eq_some (by simp)]
  refine AppliesTo.congr fun p => ?_
  simp only [optionPaths, List.cons_append, List.nil_append, List.mem_cons, List.not_mem_nil, or_false]
  tauto

theorem peelVec_eq_some {ty inner : FieldType} : ty.peelVec = some inner ↔ AppliesTo vecPaths inner ty := by
  rw [peelVec, orElse_appliesTo (by simp) (fun _ => extractInnerType_eq_some (by simp))
    fun _ => extractInnerType_eq_some (by simp)]
  refine AppliesTo.congr fun p => ?_
  simp only [vecPaths, List.cons_append, List.nil_append, List.mem_cons, List.not_mem_nil, or_false]
  tauto

theorem peelSmartPtr_eq_some {ty inner : FieldType} :
    ty.peelSmartPtr = some inner ↔ AppliesTo smartPtrPaths inner ty := by
  have hread : ∀ (wrapper : String) {qualified : List String}, qualified ≠ [] → ∀ inner,
      ty.extractInnerType wrapper qualified = some inner ↔ AppliesTo [[wrapper], qualified] inner ty :=
    fun _ _ hne _ => extractInnerType_eq_some hne
  rw [peelSmartPtr, orElse_appliesTo (by simp) (hread "Box" (by simp)) <|
    orElse_appliesTo (by simp) (hread "Box" (by simp)) <| orElse_appliesTo (by simp) (hread "Rc" (by simp)) <|
    orElse_appliesTo (by simp) (hread "Rc" (by simp)) <| orElse_appliesTo (by simp) (hread "Arc" (by simp)) <|
    hread "Arc" (by simp)]
  refine AppliesTo.congr fun p => ?_
  simp only [smartPtrPaths, List.cons_append, List.nil_append, List.mem_cons, List.not_mem_nil, or_false]
  tauto

/-! ## `Cow` -/

theorem isCowPath_iff {ty : FieldType} :
    ty.isCowPath = true ↔
      ∃ leadingColon, ∃ path ∈ cowPaths, ∃ arguments, ty = .path none leadingColon (applied path arguments) := by
  simp only [isCowPath, Bool.or_eq_true, pathIsExactWithLeafArgs_iff (List.cons_ne_nil _ _), cowPaths, List.mem_cons,
    List.not_mem_nil, or_false, or_and_right, exists_or, exists_eq_left, or_assoc]

/-- Once a type is found only lifetimes may follow. -/
theorem cowArgument_found (ty : FieldType) : ∀ {args : List FieldArgument} {r : Option FieldType},
    args.foldlM cowArgument (some ty) = some r ↔ (∃ after : List String, args = after.map .lifetime) ∧ r = some ty
  | [], r => by
    constructor
    · intro h
      cases h
      exact ⟨⟨[], rfl⟩, rfl⟩
    · rintro ⟨-, rfl⟩
      rfl
  | arg :: args, r => by
    rw [List.foldlM_cons]
    cases arg with
    | lifetime name =>
      rw [show cowArgument (some ty) (.lifetime name) = some (some ty) from rfl, Option.bind_eq_bind, Option.bind_some,
        cowArgument_found ty]
      constructor
      · rintro ⟨⟨after, rfl⟩, rfl⟩; exact ⟨⟨name :: after, rfl⟩, rfl⟩
      · rintro ⟨⟨after, hafter⟩, rfl⟩
        cases after with
        | nil => cases hafter
        | cons a after => cases hafter; exact ⟨⟨after, rfl⟩, rfl⟩
    | type other =>
      refine ⟨nofun, ?_⟩
      rintro ⟨⟨after, hafter⟩, -⟩
      cases after <;> cases hafter
    | other other =>
      refine ⟨nofun, ?_⟩
      rintro ⟨⟨after, hafter⟩, -⟩
      cases after <;> cases hafter

theorem cowArgument_eq_some {ty : FieldType} : ∀ {args : List FieldArgument},
    args.foldlM cowArgument none = some (some ty) ↔
      ∃ before after : List String, args = before.map .lifetime ++ .type ty :: after.map .lifetime
  | [] => by
    refine ⟨nofun, ?_⟩
    rintro ⟨before, after, h⟩
    cases before <;> cases h
  | arg :: args => by
    rw [List.foldlM_cons]
    cases arg with
    | lifetime name =>
      rw [show cowArgument none (.lifetime name) = some none from rfl, Option.bind_eq_bind, Option.bind_some,
        cowArgument_eq_some]
      constructor
      · rintro ⟨before, after, rfl⟩; exact ⟨name :: before, after, rfl⟩
      · rintro ⟨before, after, h⟩
        cases before with
        | nil => cases h
        | cons b before => cases h; exact ⟨before, after, rfl⟩
    | type found =>
      rw [show cowArgument none (.type found) = some (some found) from rfl, Option.bind_eq_bind, Option.bind_some,
        cowArgument_found]
      constructor
      · rintro ⟨⟨after, rfl⟩, h⟩
        cases h
        exact ⟨[], after, rfl⟩
      · rintro ⟨before, after, h⟩
        cases before with
        | nil => cases h; exact ⟨⟨after, rfl⟩, rfl⟩
        | cons b before => cases h
    | other other =>
      refine ⟨nofun, ?_⟩
      rintro ⟨before, after, h⟩
      cases before <;> cases h

theorem nil_notMem_cowPaths : [] ∉ cowPaths := by simp [cowPaths]

theorem cowInnerType_eq_some {ty inner : FieldType} : ty.cowInnerType = some inner ↔ CowOf inner ty := by
  have hne : ∀ path ∈ cowPaths, path ≠ [] := fun path hpath hnil => nil_notMem_cowPaths (hnil ▸ hpath)
  have hread : ty.cowInnerType = some inner ↔
      ty.isCowPath = true ∧ ∃ args, ty.angleArgs = some args ∧ args.foldlM cowArgument none = some (some inner) := by
    cases hcow : ty.isCowPath <;> simp [cowInnerType, hcow, Option.join_eq_some_iff, Option.bind_eq_some_iff]
  rw [hread, isCowPath_iff]
  constructor
  · rintro ⟨⟨leadingColon, path, hpath, arguments, rfl⟩, args, hargs, hfold⟩
    obtain ⟨before, after, rfl⟩ := cowArgument_eq_some.mp hfold
    rw [angleArgs_of_applied (hne path hpath) hargs]
    exact ⟨leadingColon, path, hpath, before, after, rfl⟩
  · rintro ⟨leadingColon, path, hpath, before, after, rfl⟩
    exact ⟨⟨leadingColon, path, hpath, _, rfl⟩, _, angleArgs_applied none leadingColon (hne path hpath) _,
      cowArgument_eq_some.mpr ⟨before, after, rfl⟩⟩

theorem CowOf.isCowPath {ty inner : FieldType} (h : CowOf inner ty) : ty.isCowPath = true := by
  obtain ⟨leadingColon, path, hpath, before, after, rfl⟩ := h
  exact isCowPath_iff.mpr ⟨leadingColon, path, hpath, _, rfl⟩

theorem CowOf.unique {ty inner inner' : FieldType} (h : CowOf inner ty) (h' : CowOf inner' ty) : inner = inner' := by
  rw [← cowInnerType_eq_some] at h h'
  exact Option.some.inj (h.symm.trans h')

/-! ## What has no size -/

theorem isBareStrType_iff {ty : FieldType} : ty.isBareStrType = true ↔ ty.IsStr := by
  constructor
  · intro h
    unfold isBareStrType at h
    split at h
    · rename_i leadingColon ident arguments
      rw [Bool.and_eq_true, beq_iff_eq, FieldArguments.isNone_iff] at h
      obtain ⟨rfl, rfl⟩ := h
      exact ⟨leadingColon, rfl⟩
    · cases h
  · rintro ⟨leadingColon, rfl⟩
    rfl

theorem isUnsized_iff {ty : FieldType} : ty.IsUnsized ↔ ty.isBareStrType = true ∨ ty.isSlice = true := by
  have hslice : ty.isSlice = true ↔ ∃ elem, ty = .slice elem := by
    cases ty <;> simp [isSlice]
  rw [IsUnsized, isBareStrType_iff, hslice]

theorem peelCow_eq_rebind {ty inner : FieldType} :
    ty.peelCow = some (.rebind inner) ↔ CowOf inner ty ∧ ¬ inner.IsUnsized := by
  have hread : ty.peelCow = some (.rebind inner) ↔ ty.isCowPath = true ∧ ty.cowInnerType = some inner ∧
      ¬ (inner.isBareStrType = true ∨ inner.isSlice = true) := by
    cases hcow : ty.isCowPath with
    | false => simp [peelCow, hcow]
    | true =>
      rw [peelCow, hcow]
      simp only [Bool.not_true, Bool.false_eq_true, ↓reduceIte, Option.map_eq_some_iff, true_and]
      constructor
      · rintro ⟨found, hfound, hpeel⟩
        split at hpeel
        · cases hpeel
        · split at hpeel
          · cases hpeel
          · cases hpeel
            rename_i hstr hslice
            exact ⟨hfound, not_or.mpr ⟨hstr, hslice⟩⟩
      · rintro ⟨hfound, hsized⟩
        obtain ⟨hstr, hslice⟩ := not_or.mp hsized
        exact ⟨inner, hfound, by rw [if_neg hstr, if_neg hslice]⟩
  rw [hread, cowInnerType_eq_some, ← isUnsized_iff]
  exact ⟨fun h => h.2, fun h => ⟨h.1.isCowPath, h⟩⟩

/-! ## The tables do not overlap -/

theorem AppliesTo.spelledIn {paths : List (List String)} {inner ty : FieldType} (h : AppliesTo paths inner ty) :
    ty.SpelledIn paths := by
  obtain ⟨leadingColon, path, hpath, rfl⟩ := h
  exact ⟨leadingColon, path, hpath, _, rfl⟩

theorem CowOf.spelledIn {inner ty : FieldType} (h : CowOf inner ty) : ty.SpelledIn cowPaths := by
  obtain ⟨leadingColon, path, hpath, before, after, rfl⟩ := h
  exact ⟨leadingColon, path, hpath, _, rfl⟩

/-- A path is in one of two tables without a common row. -/
theorem SpelledIn.disjoint {ps : List (List String)} {ty : FieldType} (h : ty.SpelledIn ps) (qs : List (List String))
    (hdisjoint : ∀ p ∈ ps, p ∉ [] :: qs) : ¬ ty.SpelledIn qs := by
  rintro ⟨_, q, hq, arguments', heq⟩
  obtain ⟨leadingColon, p, hp, arguments, rfl⟩ := h
  obtain ⟨-, -, heq⟩ := FieldType.path.inj heq
  have hnot := hdisjoint p hp
  have hne : p ≠ [] := fun hnil => hnot (hnil ▸ List.mem_cons_self)
  obtain ⟨rfl, -⟩ := applied_inj hne heq
  exact hnot (List.mem_cons_of_mem _ hq)

/-! ## One turn of the loop -/

theorem borrowedReferenceBase_isSome {elem : FieldType} : (borrowedReferenceBase elem).isSome = true ↔ elem.IsUnsized := by
  rw [isUnsized_iff]
  unfold borrowedReferenceBase
  cases hstr : elem.isBareStrType with
  | true => simp
  | false => cases elem <;> simp [isSlice]

/-- A path is no reference. -/
theorem SpelledIn.peelReference {paths : List (List String)} {ty : FieldType} (h : ty.SpelledIn paths) :
    ty.peelReference = .ok none := by
  obtain ⟨leadingColon, path, -, arguments, rfl⟩ := h
  rfl

theorem peelOption_eq_none {ty : FieldType} (h : ¬ ty.SpelledIn optionPaths) : ty.peelOption = none :=
  Option.eq_none_iff_forall_ne_some.mpr fun _ heq => h (peelOption_eq_some.mp heq).spelledIn

theorem peelVec_eq_none {ty : FieldType} (h : ¬ ty.SpelledIn vecPaths) : ty.peelVec = none :=
  Option.eq_none_iff_forall_ne_some.mpr fun _ heq => h (peelVec_eq_some.mp heq).spelledIn

theorem peelSmartPtr_eq_none {ty : FieldType} (h : ¬ ty.SpelledIn smartPtrPaths) : ty.peelSmartPtr = none :=
  Option.eq_none_iff_forall_ne_some.mpr fun _ heq => h (peelSmartPtr_eq_some.mp heq).spelledIn

theorem notSpelledIn_reference {paths : List (List String)} {lifetime : Option String} {mutability : Bool}
    {elem : FieldType} : ¬ (FieldType.reference lifetime mutability elem).SpelledIn paths := by
  rintro ⟨_, _, _, _, h⟩
  cases h

theorem peelCow_reference (lifetime : Option String) (mutability : Bool) (elem : FieldType) :
    (FieldType.reference lifetime mutability elem).peelCow = none := rfl

/-- The turn of a type that is neither `Option`, `Vec` nor an owning pointer. -/
theorem peelLayer_of_others {ty : FieldType} (hoption : ty.peelOption = none) (hvec : ty.peelVec = none)
    (hptr : ty.peelSmartPtr = none) :
    ty.peelLayer =
      (match ty.peelCow with
      | some (.rebind inner) => .ok (some (.smartPtr, inner))
      | some .keepAsSemanticBase => .ok none
      | none => do
        match ← ty.peelReference with
        | some inner => .ok (some (.smartPtr, inner))
        | none => .ok none) := by
  cases hcow : ty.peelCow with
  | some rebinding => cases rebinding <;> simp only [peelLayer, hoption, hvec, hptr, hcow]
  | none =>
    cases href : ty.peelReference with
    | error e => simp only [peelLayer, hoption, hvec, hptr, hcow, href, Lib.error_bind]
    | ok inner => cases inner <;> simp only [peelLayer, hoption, hvec, hptr, hcow, href, Lib.ok_bind]

theorem peelLayer_reference (lifetime : Option String) (mutability : Bool) (elem : FieldType) :
    (FieldType.reference lifetime mutability elem).peelLayer =
      if mutability then .error .mutableReference
      else if elem.isBareStrType ∨ elem.isSlice then .ok none
      else .ok (some (.smartPtr, elem)) := by
  rw [peelLayer_of_others (peelOption_eq_none notSpelledIn_reference) (peelVec_eq_none notSpelledIn_reference)
    (peelSmartPtr_eq_none notSpelledIn_reference), peelCow_reference]
  cases mutability with
  | true => rfl
  | false =>
    have hbase : (borrowedReferenceBase elem).isSome = true ↔ elem.isBareStrType = true ∨ elem.isSlice = true :=
      borrowedReferenceBase_isSome.trans isUnsized_iff
    by_cases hunsized : elem.isBareStrType = true ∨ elem.isSlice = true
    · simp only [peelReference, hbase.mpr hunsized, if_pos hunsized]
      rfl
    · have hnone : (borrowedReferenceBase elem).isSome = false := Bool.eq_false_iff.mpr fun h => hunsized (hbase.mp h)
      simp only [peelReference, hnone, if_neg hunsized]
      rfl

theorem IsWrapper.peelLayer {ty inner : FieldType} {w : RawWrapper} (h : IsWrapper ty w inner) :
    ty.peelLayer = .ok (some (w, inner)) := by
  cases h with
  | option h => simp only [FieldType.peelLayer, peelOption_eq_some.mpr h]
  | vec h =>
    have hoption := h.spelledIn.disjoint optionPaths (by decide)
    simp only [FieldType.peelLayer, peelOption_eq_none hoption, peelVec_eq_some.mpr h]
  | smartPtr h =>
    have hoption := h.spelledIn.disjoint optionPaths (by decide)
    have hvec := h.spelledIn.disjoint vecPaths (by decide)
    simp only [FieldType.peelLayer, peelOption_eq_none hoption, peelVec_eq_none hvec, peelSmartPtr_eq_some.mpr h]
  | cow h hsized =>
    have hoption := h.spelledIn.disjoint optionPaths (by decide)
    have hvec := h.spelledIn.disjoint vecPaths (by decide)
    have hptr := h.spelledIn.disjoint smartPtrPaths (by decide)
    rw [peelLayer_of_others (peelOption_eq_none hoption) (peelVec_eq_none hvec) (peelSmartPtr_eq_none hptr),
      peelCow_eq_rebind.mpr ⟨h, hsized⟩]
  | reference hsized =>
    rw [peelLayer_reference, if_neg (by simp), if_neg (fun h => hsized (isUnsized_iff.mpr h))]

theorem peelLayer_eq_some {ty inner : FieldType} {w : RawWrapper} :
    ty.peelLayer = .ok (some (w, inner)) ↔ IsWrapper ty w inner := by
  refine ⟨fun h => ?_, IsWrapper.peelLayer⟩
  cases ty with
  | reference lifetime mutability elem =>
    rw [peelLayer_reference] at h
    split at h
    · cases h
    · split at h
      · cases h
      · rename_i hmut hsized
        cases h
        rw [Bool.not_eq_true] at hmut
        subst hmut
        exact .reference fun hunsized => hsized (isUnsized_iff.mp hunsized)
  | _ =>
    unfold FieldType.peelLayer at h
    split at h
    · rename_i hoption
      cases h
      exact .option (peelOption_eq_some.mp hoption)
    · split at h
      · rename_i hvec
        cases h
        exact .vec (peelVec_eq_some.mp hvec)
      · split at h
        · rename_i hptr
          cases h
          exact .smartPtr (peelSmartPtr_eq_some.mp hptr)
        · split at h
          · rename_i hcow
            cases h
            obtain ⟨hspelled, hsized⟩ := peelCow_eq_rebind.mp hcow
            exact .cow hspelled hsized
          · cases h
          · cases h

theorem peelLayer_eq_error {ty : FieldType} {e : TypeError} :
    ty.peelLayer = .error e ↔ e = .mutableReference ∧ ∃ lifetime elem, ty = .reference lifetime true elem := by
  constructor
  · intro h
    cases ty with
    | reference lifetime mutability elem =>
      rw [peelLayer_reference] at h
      split at h
      · rename_i hmut
        cases h
        subst hmut
        exact ⟨rfl, lifetime, elem, rfl⟩
      · split at h <;> cases h
    | _ =>
      unfold FieldType.peelLayer at h
      repeat' split at h
      all_goals cases h
  · rintro ⟨rfl, lifetime, elem, rfl⟩
    rw [peelLayer_reference, if_pos rfl]

/-- The loop stops where no wrapper is written and nothing is wrong. -/
theorem peelLayer_eq_none {ty : FieldType} (hwraps : ∀ w inner, ¬ IsWrapper ty w inner)
    (hmut : ∀ lifetime elem, ty ≠ .reference lifetime true elem) : ty.peelLayer = .ok none := by
  cases h : ty.peelLayer with
  | error e =>
    obtain ⟨-, lifetime, elem, heq⟩ := peelLayer_eq_error.mp h
    exact absurd heq (hmut lifetime elem)
  | ok r =>
    cases r with
    | none => rfl
    | some found => exact absurd (peelLayer_eq_some.mp h) (hwraps found.1 found.2)

/-! ## The type under a wrapper is smaller -/

theorem applied_args_lt {path : List String} (hpath : path ≠ []) (args : List FieldArgument) :
    sizeOf args < sizeOf (applied path (.angleBracketed args)) := by
  induction path with
  | nil => exact absurd rfl hpath
  | cons s ss ih =>
    cases ss with
    | nil => simp only [applied, List.cons.sizeOf_spec, FieldSegment.mk.sizeOf_spec,
        FieldArguments.angleBracketed.sizeOf_spec]; omega
    | cons t ts =>
      rw [applied_cons s (List.cons_ne_nil t ts), List.cons.sizeOf_spec]
      have := ih (List.cons_ne_nil t ts)
      omega

theorem IsWrapper.lt {ty inner : FieldType} {w : RawWrapper} (h : IsWrapper ty w inner) : sizeOf inner < sizeOf ty := by
  have hargs : ∀ {path : List String} {leadingColon : Bool} {args : List FieldArgument}, path ≠ [] → .type inner ∈ args →
      sizeOf inner < sizeOf (FieldType.path none leadingColon (applied path (.angleBracketed args))) := by
    intro path leadingColon args hpath hmem
    have h1 := List.sizeOf_lt_of_mem hmem
    have h2 := applied_args_lt hpath args
    simp only [FieldArgument.type.sizeOf_spec] at h1
    simp only [FieldType.path.sizeOf_spec]
    omega
  have happlies : ∀ {paths : List (List String)}, [] ∉ paths → AppliesTo paths inner ty → sizeOf inner < sizeOf ty := by
    rintro paths hne ⟨leadingColon, path, hpath, rfl⟩
    exact hargs (fun hnil => hne (hnil ▸ hpath)) (List.mem_singleton_self _)
  cases h with
  | option h => exact happlies (by decide) h
  | vec h => exact happlies (by decide) h
  | smartPtr h => exact happlies (by decide) h
  | cow h hsized =>
    obtain ⟨leadingColon, path, hpath, before, after, rfl⟩ := h
    exact hargs (fun hnil => nil_notMem_cowPaths (hnil ▸ hpath)) (by simp)
  | reference hsized =>
    simp only [FieldType.reference.sizeOf_spec]
    omega

theorem peelLayer_lt {ty inner : FieldType} {w : RawWrapper} (h : ty.peelLayer = .ok (some (w, inner))) :
    sizeOf inner < sizeOf ty := (peelLayer_eq_some.mp h).lt

end FieldType

end DfDerive
