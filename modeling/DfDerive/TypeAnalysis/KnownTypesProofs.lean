/-
  DfDerive.TypeAnalysis.KnownTypesProofs — paths are recognized exactly as the tables give them.

  `classifyKnownBase_eq_some` for column types, `unsupportedCollectionKind_eq_some` for the
  collections, `analyzeCowBase_eq_some` for a `Cow` of what has no size. The tables share no
  row (`knownPath_only`), so no order of the checks matters.
-/

import DfDerive.TypeAnalysis.WrappersProofs

namespace DfDerive

namespace FieldType

/-! ## Plain paths -/

theorem IsPlain.unique {p q : List String} {ty : FieldType} (h : ty.IsPlain p) (h' : ty.IsPlain q) : p = q := by
  obtain ⟨leadingColon, rfl⟩ := h
  obtain ⟨_, heq⟩ := h'
  obtain ⟨-, -, heq⟩ := FieldType.path.inj heq
  have hmap := congrArg (List.map FieldSegment.ident) heq
  rwa [← applied_none, ← applied_none, applied_ident, applied_ident] at hmap

theorem IsPlain.spelledIn {p : List String} {ps : List (List String)} {ty : FieldType} (h : ty.IsPlain p) (hp : p ∈ ps) :
    ty.SpelledIn ps := by
  obtain ⟨leadingColon, rfl⟩ := h
  exact ⟨leadingColon, p, hp, .none, by rw [applied_none]⟩

theorem IsPlain.angleArgs {p : List String} {ty : FieldType} (h : ty.IsPlain p) : ty.angleArgs = none := by
  obtain ⟨leadingColon, rfl⟩ := h
  simp only [FieldType.angleArgs, plain, List.getLast?_map]
  cases p.getLast? <;> rfl

theorem AppliesTo.angleArgs {paths : List (List String)} {inner ty : FieldType} (hne : [] ∉ paths)
    (h : AppliesTo paths inner ty) : ty.angleArgs = some [.type inner] := by
  obtain ⟨leadingColon, path, hpath, rfl⟩ := h
  exact angleArgs_applied none leadingColon (fun hnil => hne (hnil ▸ hpath)) _

theorem CowOf.angleArgs {inner ty : FieldType} (h : CowOf inner ty) : ty.angleArgs ≠ none := by
  obtain ⟨leadingColon, path, hpath, before, after, rfl⟩ := h
  rw [angleArgs_applied none leadingColon (fun hnil => nil_notMem_cowPaths (hnil ▸ hpath)) _]
  exact Option.some_ne_none _

/-- A wrapper has arguments, or is no path. -/
theorem IsWrapper.not_plain {ty inner : FieldType} {w : RawWrapper} (h : IsWrapper ty w inner) (p : List String) :
    ¬ ty.IsPlain p := by
  intro hplain
  have hnone := hplain.angleArgs
  cases h with
  | option h => rw [h.angleArgs (by decide)] at hnone; cases hnone
  | vec h => rw [h.angleArgs (by decide)] at hnone; cases hnone
  | smartPtr h => rw [h.angleArgs (by decide)] at hnone; cases hnone
  | cow h => exact h.angleArgs hnone
  | reference =>
    obtain ⟨leadingColon, h⟩ := hplain
    cases h

theorem CowOf.not_plain {ty inner : FieldType} (h : CowOf inner ty) (p : List String) : ¬ ty.IsPlain p :=
  fun hplain => h.angleArgs hplain.angleArgs

/-! ## Known types -/

theorem any_exactNoArgs_or {ty : FieldType} {f : PathView → Bool} {p : List String} {P : Prop}
    (hf : ty.pathView.any f = true ↔ P) :
    (ty.pathView.any fun path => f path || path.exactNoArgs p) = true ↔ P ∨ ty.IsPlain p := by
  have hp : ty.pathView.any (·.exactNoArgs p) = true ↔ ty.IsPlain p := pathIsExactNoArgs_iff
  rw [← hf, ← hp]
  cases ty.pathView <;> simp

theorem isStdDuration_iff {ty : FieldType} :
    ty.isStdDuration = true ↔ ty.IsPlain ["std", "time", "Duration"] ∨ ty.IsPlain ["core", "time", "Duration"] :=
  any_exactNoArgs_or pathIsExactNoArgs_iff

theorem isStringType_iff {ty : FieldType} :
    ty.isStringType = true ↔
      (ty.IsPlain ["String"] ∨ ty.IsPlain ["std", "string", "String"]) ∨ ty.IsPlain ["alloc", "string", "String"] :=
  any_exactNoArgs_or (any_exactNoArgs_or pathIsExactNoArgs_iff)

theorem isDecimalType_iff {ty : FieldType} :
    ty.isDecimalType = true ↔ ty.IsPlain ["Decimal"] ∨ ty.IsPlain ["rust_decimal", "Decimal"] :=
  any_exactNoArgs_or pathIsExactNoArgs_iff

theorem isChronoNoArgsType_iff {ty : FieldType} {leaf : String} :
    ty.isChronoNoArgsType leaf = true ↔ ty.IsPlain [leaf] ∨ ty.IsPlain ["chrono", leaf] :=
  any_exactNoArgs_or pathIsExactNoArgs_iff

theorem isChronoDuration_plain {ty : FieldType} (h : ty.isChronoDuration = true) :
    ty.IsPlain ["Duration"] ∨ ty.IsPlain ["chrono", "Duration"] ∨ ty.IsPlain ["TimeDelta"] ∨
      ty.IsPlain ["chrono", "TimeDelta"] := by
  obtain ⟨path, hpath, hread⟩ := (Option.any_eq_true _ _).mp h
  obtain ⟨leadingColon, rfl⟩ := pathView_eq_some.mp hpath
  split at hread
  · split at hread
    · rw [Bool.or_eq_true, PathView.exactNoArgs_iff, PathView.exactNoArgs_iff] at hread
      rcases hread with rfl | rfl
      · exact Or.inl ⟨leadingColon, rfl⟩
      · exact Or.inr (Or.inl ⟨leadingColon, rfl⟩)
    · split at hread
      · rw [Bool.or_eq_true, PathView.exactNoArgs_iff, PathView.exactNoArgs_iff] at hread
        rcases hread with rfl | rfl
        · exact Or.inr (Or.inr (Or.inl ⟨leadingColon, rfl⟩))
        · exact Or.inr (Or.inr (Or.inr ⟨leadingColon, rfl⟩))
      · cases hread
  · cases hread

theorem isChronoDatetime_iff {ty : FieldType} : ty.isChronoDatetime = true ↔ ty.IsDateTime := by
  have hpaths : (ty.pathIsExactWithLeafArgs ["DateTime"] || ty.pathIsExactWithLeafArgs ["chrono", "DateTime"]) = true ↔
      ty.SpelledIn dateTimePaths := by
    simp only [Bool.or_eq_true, pathIsExactWithLeafArgs_iff (List.cons_ne_nil _ _), SpelledIn, dateTimePaths,
      List.mem_cons, List.not_mem_nil, or_false, or_and_right, exists_or, exists_eq_left]
  have hargs : ∀ args : List FieldArgument, args.any isTypeArgument = true ↔ ∃ tz, .type tz ∈ args := by
    intro args
    rw [List.any_eq_true]
    constructor
    · rintro ⟨arg, hmem, htype⟩
      cases arg with
      | type tz => exact ⟨tz, hmem⟩
      | lifetime name => cases htype
      | other arg => cases htype
    · rintro ⟨tz, hmem⟩
      exact ⟨_, hmem, rfl⟩
  have hne : ∀ path ∈ dateTimePaths, path ≠ [] := by decide
  unfold isChronoDatetime
  rw [← Bool.not_or]
  split
  · rename_i hnot
    rw [Bool.not_eq_true', ← Bool.not_eq_true, hpaths] at hnot
    refine ⟨nofun, ?_⟩
    rintro ⟨leadingColon, path, hpath, args, -, rfl⟩
    exact absurd ⟨leadingColon, path, hpath, _, rfl⟩ hnot
  · rename_i hsome
    rw [Bool.not_eq_true', Bool.not_eq_false, hpaths] at hsome
    obtain ⟨leadingColon, path, hpath, arguments, rfl⟩ := hsome
    obtain ⟨leaf, hleaf⟩ := applied_getLast? (hne path hpath) arguments
    simp only [hleaf]
    constructor
    · intro h
      cases arguments with
      | angleBracketed args => exact ⟨leadingColon, path, hpath, args, (hargs args).mp h, rfl⟩
      | none => cases h
      | parenthesized inputs output => cases h
    · rintro ⟨_, path', -, args, htz, heq⟩
      obtain ⟨-, -, heq⟩ := FieldType.path.inj heq
      obtain ⟨-, rfl⟩ := applied_inj (hne path hpath) heq
      exact (hargs args).mpr htz

theorem numericKindOf_eq_some {name : String} {kind : NumericKind} (h : numericKindOf name = some kind) :
    (name, kind) ∈ numericNames := by
  unfold numericKindOf at h
  split at h <;> cases h <;> decide

theorem nonzeroKindOf_eq_some {name : String} {kind : NumericKind} (h : nonzeroKindOf name = some kind) :
    (name, kind) ∈ nonZeroNames := by
  unfold nonzeroKindOf at h
  split at h <;> cases h <;> decide

theorem bareNumericKind_known {ty : FieldType} {kind : NumericKind} (h : ty.bareNumericKind = some kind) :
    ty.KnownAs (.numeric kind) := by
  unfold bareNumericKind at h
  split at h
  · rename_i leadingColon ident
    refine Or.inl ⟨[ident], ?_, leadingColon, rfl⟩
    have hrow := List.mem_map_of_mem (f := fun (x : String × NumericKind) => ([x.1], KnownBase.numeric x.2))
      (numericKindOf_eq_some h)
    exact List.mem_append_left _ (List.mem_append_left _ hrow)
  · cases h

theorem nonzeroNumericKind_known {ty : FieldType} {kind : NumericKind} (h : ty.nonzeroNumericKind = some kind) :
    ty.KnownAs (.numeric kind) := by
  unfold nonzeroNumericKind at h
  split at h
  · split at h
    · rename_i leaf hlast
      cases hkind : nonzeroKindOf leaf with
      | none => rw [hkind] at h; cases h
      | some found =>
        simp only [hkind] at h
        rw [Option.ite_none_right_eq_some, Bool.or_eq_true, Bool.or_eq_true, pathIsExactNoArgs_iff,
          pathIsExactNoArgs_iff, pathIsExactNoArgs_iff] at h
        obtain ⟨hpath, hfound⟩ := h
        cases hfound
        have hrow : ∀ p, p = [leaf] ∨ p = ["std", "num", leaf] ∨ p = ["core", "num", leaf] →
            (p, KnownBase.numeric kind) ∈ knownPaths := by
          intro p hp
          refine List.mem_append_left _ (List.mem_append_right _ ?_)
          refine List.mem_flatMap.mpr ⟨_, nonzeroKindOf_eq_some hkind, ?_⟩
          rcases hp with rfl | rfl | rfl <;> simp
        rcases hpath with (hplain | hplain) | hplain
        · exact Or.inl ⟨_, hrow _ (Or.inl rfl), hplain⟩
        · exact Or.inl ⟨_, hrow _ (Or.inr (Or.inl rfl)), hplain⟩
        · exact Or.inl ⟨_, hrow _ (Or.inr (Or.inr rfl)), hplain⟩
    · cases h
  · cases h

/-- Every row of the table is recognized. -/
theorem classifyKnownBase_row : ∀ row ∈ knownPaths, ∀ leadingColon,
    (FieldType.path none leadingColon (plain row.1)).classifyKnownBase = some row.2 := by
  decide

/-- `DateTime<Tz>` is none of the durations. -/
theorem IsDateTime.classify {ty : FieldType} (h : ty.IsDateTime) : ty.classifyKnownBase = some .dateTimeTz := by
  have hargs : ty.angleArgs ≠ none := by
    obtain ⟨leadingColon, path, hpath, args, -, rfl⟩ := h
    have hne : path ≠ [] := (by decide : ∀ path ∈ dateTimePaths, path ≠ []) path hpath
    rw [angleArgs_applied none leadingColon hne]
    exact Option.some_ne_none _
  have hplain : ∀ p, ¬ ty.IsPlain p := fun p hp => hargs hp.angleArgs
  have hstd : ty.isStdDuration = false := by
    rw [← Bool.not_eq_true, isStdDuration_iff]
    rintro (hp | hp) <;> exact hplain _ hp
  have hchrono : ty.isChronoDuration = false := by
    rw [← Bool.not_eq_true]
    intro hp
    rcases isChronoDuration_plain hp with hp | hp | hp | hp <;> exact hplain _ hp
  rw [classifyKnownBase, hstd, hchrono, isChronoDatetime_iff.mpr h]
  rfl

theorem classifyKnownBase_eq_some {ty : FieldType} {base : KnownBase} (hduration : ¬ ty.IsPlain ["Duration"]) :
    ty.classifyKnownBase = some base ↔ ty.KnownAs base := by
  have hrow : ∀ {base : KnownBase} {p : List String}, ty.IsPlain p → (p, base) ∈ knownPaths → ty.KnownAs base :=
    fun hp hmem => Or.inl ⟨_, hmem, hp⟩
  constructor
  · intro h
    unfold classifyKnownBase at h
    split at h
    · rename_i hstd
      cases h
      rcases isStdDuration_iff.mp hstd with hp | hp <;> exact hrow hp (by decide)
    · split at h
      · rename_i hchrono
        cases h
        rcases isChronoDuration_plain hchrono with hp | hp | hp | hp
        · exact absurd hp hduration
        all_goals exact hrow hp (by decide)
      · split at h
        · rename_i hdatetime
          cases h
          exact Or.inr ⟨rfl, isChronoDatetime_iff.mp hdatetime⟩
        · split at h
          · rename_i kind hkind
            cases h
            rw [Option.orElse_eq_or, Option.or_eq_some_iff] at hkind
            rcases hkind with hbare | ⟨-, hnonzero⟩
            · exact bareNumericKind_known hbare
            · exact nonzeroNumericKind_known hnonzero
          · repeat' split at h
            · rename_i hbool
              cases h
              exact hrow (pathIsExactNoArgs_iff.mp hbool) (by decide)
            · rename_i hstring
              cases h
              rcases isStringType_iff.mp hstring with (hp | hp) | hp <;> exact hrow hp (by decide)
            · rename_i hdecimal
              cases h
              rcases isDecimalType_iff.mp hdecimal with hp | hp <;> exact hrow hp (by decide)
            · rename_i hdate
              cases h
              rcases isChronoNoArgsType_iff.mp hdate with hp | hp <;> exact hrow hp (by decide)
            · rename_i htime
              cases h
              rcases isChronoNoArgsType_iff.mp htime with hp | hp <;> exact hrow hp (by decide)
            · rename_i hdatetime
              cases h
              rcases isChronoNoArgsType_iff.mp hdatetime with hp | hp <;> exact hrow hp (by decide)
            · cases h
  · rintro (⟨path, hmem, leadingColon, rfl⟩ | ⟨rfl, hdatetime⟩)
    · exact classifyKnownBase_row (path, base) hmem leadingColon
    · exact hdatetime.classify

/-! ## Collections -/

theorem pathIsBareOrStdCollection_iff {ty : FieldType} {collection : UnsupportedCollection} :
    ty.pathIsBareOrStdCollection collection.name = true ↔ ty.IsCollection collection := by
  rw [pathIsBareOrStdCollection, Option.any_eq_true]
  constructor
  · rintro ⟨path, hpath, h⟩
    obtain ⟨leadingColon, rfl⟩ := pathView_eq_some.mp hpath
    simp only [PathView.leaf] at h
    split at h
    · rename_i segment hlast
      rw [Bool.and_eq_true, beq_iff_eq, Bool.or_eq_true, Bool.and_eq_true, beq_iff_eq, beq_iff_eq] at h
      obtain ⟨hident, hlen | ⟨hlen, hstd⟩⟩ := h
      · obtain ⟨s, rfl⟩ := List.length_eq_one_iff.mp hlen
        cases hlast
        obtain ⟨ident, arguments⟩ := s
        subst hident
        exact ⟨leadingColon, [collection.name], by simp [collectionPaths], arguments, rfl⟩
      · obtain ⟨a, b, c, rfl⟩ := List.length_eq_three.mp hlen
        cases hlast
        obtain ⟨ident, arguments⟩ := c
        subst hident
        simp only [pathPrefixIsNoArgs, pathView, Option.any_some, PathView.prefixNoArgs, List.zip_cons_cons,
          List.zip_nil_right, List.all_cons, List.all_nil, Bool.and_true, Bool.and_eq_true, beq_iff_eq,
          FieldArguments.isNone_iff] at hstd
        obtain ⟨ai, aa⟩ := a
        obtain ⟨bi, ba⟩ := b
        obtain ⟨-, ⟨rfl, rfl⟩, rfl, rfl⟩ := hstd
        exact ⟨leadingColon, ["std", "collections", collection.name], by simp [collectionPaths], arguments, rfl⟩
    · cases h
  · rintro ⟨leadingColon, path, hmem, arguments, rfl⟩
    refine ⟨_, rfl, ?_⟩
    rcases List.mem_pair.mp hmem with rfl | rfl
    · simp [PathView.leaf, applied]
    · simp [PathView.leaf, applied, pathPrefixIsNoArgs, PathView.prefixNoArgs, pathView, FieldArguments.isNone]

theorem collectionPaths_disjoint : ∀ c c' : UnsupportedCollection, c ≠ c' →
    ∀ p ∈ collectionPaths c, p ∉ [] :: collectionPaths c' := by
  intro c c'
  cases c <;> cases c' <;> decide

theorem IsCollection.unique {ty : FieldType} {c c' : UnsupportedCollection} (h : ty.IsCollection c)
    (h' : ty.IsCollection c') : c = c' := by
  by_contra hne
  exact h.disjoint _ (collectionPaths_disjoint c c' hne) h'

theorem unsupportedCollectionKind_isCollection {ty : FieldType} {collection : UnsupportedCollection}
    (h : ty.unsupportedCollectionKind = some collection) : ty.IsCollection collection := by
  rw [unsupportedCollectionKind] at h
  have hfound := List.find?_some h
  exact pathIsBareOrStdCollection_iff.mp hfound

theorem unsupportedCollectionKind_eq_some {ty : FieldType} {collection : UnsupportedCollection} :
    ty.unsupportedCollectionKind = some collection ↔ ty.IsCollection collection := by
  refine ⟨unsupportedCollectionKind_isCollection, fun h => ?_⟩
  cases hfind : ty.unsupportedCollectionKind with
  | none =>
    have hnone := List.find?_eq_none.mp hfind collection (by cases collection <;> decide)
    exact absurd (pathIsBareOrStdCollection_iff.mpr h) hnone
  | some found => rw [(unsupportedCollectionKind_isCollection hfind).unique h]

end FieldType

end DfDerive
