/-
  DfDerive.Codegen.ConfigProofs — which runtime an expansion is generated for.

  A path is written as a trait of a module when it is the module's path and the trait's name,
  without arguments (`SynPath.IsTraitOf`); it denotes that trait with empty argument lists as
  well (`SynPath.Denotes`). Two overrides are accepted together exactly when they are written
  as traits of the same built-in runtimes (`mixedBuiltinRuntimeOverride_eq_none`). So `<>`
  hides a built-in trait, and a rebased `Columnar` is not checked at all: it is a built-in
  runtime's whenever the `ToDataFrame` override names anything in that module
  (`container_overrides`).
-/

import DfDerive.Codegen.Config

namespace DfDerive

open Lib

/-! ## Paths without arguments -/

theorem PathSegment.name?_eq_some {segment : PathSegment} {name : String} :
    segment.name? = some name ↔ segment = .mk name .none := by
  obtain ⟨ident, arguments⟩ := segment
  cases arguments <;> simp [PathSegment.name?]

namespace SynPath

variable {path : SynPath} {m names : List String} {name : String}

theorem segmentNames_eq_some : path.segmentNames = some names ↔ path.segments = names.map (.mk · .none) := by
  rw [segmentNames]
  induction path.segments generalizing names with
  | nil => cases names <;> simp
  | cons segment segments ih =>
    rw [List.mapM_cons]
    simp only [Option.bind_eq_bind, Option.bind_eq_some_iff, Option.pure_def, Option.some.injEq,
      PathSegment.name?_eq_some, ih]
    constructor
    · rintro ⟨ident, rfl, idents, rfl, rfl⟩
      rfl
    · intro h
      cases names with
      | nil => cases h
      | cons ident idents =>
        obtain ⟨rfl, rfl⟩ := List.cons.inj h
        exact ⟨ident, rfl, idents, rfl, rfl⟩

/-- The path is written as the trait `name` of the module `m`. -/
def IsTraitOf (path : SynPath) (m : List String) (name : String) : Prop := path.segmentNames = some (m ++ [name])

theorem isTraitOf_iff : path.IsTraitOf m name ↔ path.segments = m.map (.mk · .none) ++ [.mk name .none] := by
  rw [IsTraitOf, segmentNames_eq_some, List.map_append, List.map_singleton]

theorem IsTraitOf.unique {m' : List String} {name' : String} (h : path.IsTraitOf m name) (h' : path.IsTraitOf m' name') :
    m = m' ∧ name = name' := by
  have heq := Option.some.inj (h.symm.trans h')
  exact ⟨List.append_inj_left' heq rfl, List.singleton_inj.mp (List.append_inj_right' heq rfl)⟩

theorem join_isTraitOf {base : SynPath} (h : base.segmentNames = some m) (name : String) :
    (base.join [name]).IsTraitOf m name := by
  rw [isTraitOf_iff, join, segments_mk, segmentNames_eq_some.mp h]
  rfl

/-- The module of a trait's path is what stands before the trait's name. -/
theorem traitModulePath_eq_some {modulePath : SynPath} :
    path.traitModulePath name = some modulePath ↔ modulePath.segments ≠ [] ∧ path = modulePath.join [name] := by
  obtain ⟨leadingColon, segs⟩ := path
  obtain ⟨leadingColon', segs'⟩ := modulePath
  rcases List.eq_nil_or_concat segs with rfl | ⟨init, ⟨ident, arguments⟩, rfl⟩
  · simp [traitModulePath, join]
  · rw [traitModulePath, segments_mk, List.concat_eq_append, List.getLast?_concat, List.dropLast_concat]
    cases arguments with
    | none =>
      by_cases hident : ident = name
      · by_cases hinit : init = []
        · simp only [hident, hinit, join, if_pos, List.isEmpty_nil, segments_mk, mk.injEq]
          simp
          exact fun h _ => h
        · simp [hident, hinit, join]
          grind
      · simp [hident, join]
    | angleBracketed _ | parenthesized _ _ => simp [join]

end SynPath

/-! ## What a path denotes -/

/-- The name of a segment; an empty argument list makes no difference to rustc. -/
def PathSegment.plainName? : PathSegment → Option String
  | mk ident .none | mk ident (.angleBracketed []) => some ident
  | _ => none

namespace SynPath

variable {path : SynPath} {m names : List String} {name : String}

def plainNames (path : SynPath) : Option (List String) := path.segments.mapM PathSegment.plainName?

/-- The path denotes the trait `name` of the module `m`. -/
def Denotes (path : SynPath) (m : List String) (name : String) : Prop := path.plainNames = some (m ++ [name])

theorem Denotes.unique {m' : List String} {name' : String} (h : path.Denotes m name) (h' : path.Denotes m' name') :
    m = m' ∧ name = name' := by
  have heq := Option.some.inj (h.symm.trans h')
  exact ⟨List.append_inj_left' heq rfl, List.singleton_inj.mp (List.append_inj_right' heq rfl)⟩

end SynPath

/-! ## The built-in runtimes -/

/-- The path of a built-in runtime's module. -/
def Crates.Builtin (env : Crates) (m : List String) : Prop := m ∈ env.builtinDefaultDataframeMods

section
variable {env : Crates} {m : List String} {path t c : SynPath} {name : String}

theorem Crates.Builtin.ne_nil (h : env.Builtin m) : m ≠ [] := by
  rintro rfl
  have hroot : ∀ p l, env.dataframeModSegmentsForCrate p l ≠ some [] := by
    intro p l
    rw [dataframeModSegmentsForCrate]
    split <;> simp
  rcases List.mem_append.mp h with h | h
  · exact hroot _ _ (Option.mem_toList.mp h)
  · exact hroot _ _ (Option.mem_toList.mp h)

theorem isBuiltin_iff : env.isBuiltinDefaultDataframeMod path = true ↔ ∃ m, path.segmentNames = some m ∧ env.Builtin m := by
  rw [Crates.isBuiltinDefaultDataframeMod]
  cases path.segmentNames with
  | none => simp
  | some names => simp [Crates.Builtin]

theorem segmentsEqual_iff : t.segmentsEqual c = true ↔ ∃ m, t.segmentNames = some m ∧ c.segmentNames = some m := by
  rw [SynPath.segmentsEqual]
  cases t.segmentNames with
  | none => simp
  | some l =>
    cases c.segmentNames with
    | none => simp
    | some r => simp [Eq.comm (a := l)]

theorem traitModulePath_names :
    (∃ mp, path.traitModulePath name = some mp ∧ mp.segmentNames = some m) ↔ m ≠ [] ∧ path.IsTraitOf m name := by
  simp only [SynPath.traitModulePath_eq_some]
  constructor
  · rintro ⟨mp, ⟨hne, rfl⟩, hnames⟩
    refine ⟨?_, SynPath.join_isTraitOf hnames name⟩
    rintro rfl
    exact hne (SynPath.segmentNames_eq_some.mp hnames)
  · rintro ⟨hne, hpath⟩
    rw [SynPath.isTraitOf_iff] at hpath
    refine ⟨.mk path.leadingColon (m.map (.mk · .none)), ⟨by simpa using hne, ?_⟩, SynPath.segmentNames_eq_some.mpr rfl⟩
    obtain ⟨leadingColon, segs⟩ := path
    rw [SynPath.segments_mk] at hpath
    rw [hpath, SynPath.join]
    rfl

theorem builtinModule_iff :
    (path.traitModulePath name).any env.isBuiltinDefaultDataframeMod = true ↔
      ∃ m, env.Builtin m ∧ path.IsTraitOf m name := by
  simp only [Option.any_eq_true, isBuiltin_iff]
  constructor
  · rintro ⟨mp, hmp, m, hnames, hm⟩
    exact ⟨m, hm, (traitModulePath_names.mp ⟨mp, hmp, hnames⟩).2⟩
  · rintro ⟨m, hm, hpath⟩
    obtain ⟨mp, hmp, hnames⟩ := traitModulePath_names.mpr ⟨hm.ne_nil, hpath⟩
    exact ⟨mp, hmp, m, hnames, hm⟩

/-- One side passes when it is not built in, or both traits are of one module. -/
theorem mixedSide_eq_none {builtin : Bool} {name' : String} :
    mixedSide builtin (t.traitModulePath name) (c.traitModulePath name') = none ↔
      (builtin = true → ∃ m ≠ [], t.IsTraitOf m name ∧ c.IsTraitOf m name') := by
  have hpair : (∃ m ≠ [], t.IsTraitOf m name ∧ c.IsTraitOf m name') ↔
      ∃ tm cm, t.traitModulePath name = some tm ∧ c.traitModulePath name' = some cm ∧ tm.segmentsEqual cm = true := by
    simp only [segmentsEqual_iff]
    constructor
    · rintro ⟨m, hne, ht, hc⟩
      obtain ⟨tm, htm, htn⟩ := traitModulePath_names.mpr ⟨hne, ht⟩
      obtain ⟨cm, hcm, hcn⟩ := traitModulePath_names.mpr ⟨hne, hc⟩
      exact ⟨tm, cm, htm, hcm, m, htn, hcn⟩
    · rintro ⟨tm, cm, htm, hcm, m, htn, hcn⟩
      obtain ⟨hne, ht⟩ := traitModulePath_names.mp ⟨tm, htm, htn⟩
      exact ⟨m, hne, ht, (traitModulePath_names.mp ⟨cm, hcm, hcn⟩).2⟩
  rw [hpair]
  cases builtin with
  | false => simp [mixedSide]
  | true =>
    cases t.traitModulePath name with
    | none => simp [mixedSide]
    | some tm =>
      cases c.traitModulePath name' with
      | none => simp [mixedSide]
      | some cm => by_cases heq : tm.segmentsEqual cm = true <;> simp [mixedSide, heq]

/-- Two overrides pass when they are traits of the same built-in runtimes. -/
theorem mixedBuiltinRuntimeOverride_eq_none :
    mixedBuiltinRuntimeOverride env (some t) (some c) = none ↔
      ∀ m, env.Builtin m → (c.IsTraitOf m "Columnar" ↔ t.IsTraitOf m "ToDataFrame") := by
  have hchecks : mixedBuiltinRuntimeOverride env (some t) (some c) = none ↔
      ((∃ m, env.Builtin m ∧ t.IsTraitOf m "ToDataFrame") → ∃ m ≠ [], t.IsTraitOf m "ToDataFrame" ∧ c.IsTraitOf m "Columnar") ∧
      ((∃ m, env.Builtin m ∧ c.IsTraitOf m "Columnar") → ∃ m ≠ [], t.IsTraitOf m "ToDataFrame" ∧ c.IsTraitOf m "Columnar") := by
    rw [← builtinModule_iff, ← builtinModule_iff, ← mixedSide_eq_none, ← mixedSide_eq_none]
    simp only [mixedBuiltinRuntimeOverride, Option.bind_eq_bind, Option.bind_some]
    cases mixedSide (Option.any env.isBuiltinDefaultDataframeMod (t.traitModulePath "ToDataFrame"))
      (t.traitModulePath "ToDataFrame") (c.traitModulePath "Columnar") <;> simp
  rw [hchecks]
  constructor
  · rintro ⟨ht, hc⟩ m hm
    constructor
    · intro hcm
      obtain ⟨m', -, htm', hcm'⟩ := hc ⟨m, hm, hcm⟩
      rw [(hcm.unique hcm').1]
      exact htm'
    · intro htm
      obtain ⟨m', -, htm', hcm'⟩ := ht ⟨m, hm, htm⟩
      rw [(htm.unique htm').1]
      exact hcm'
  · intro h
    constructor
    · rintro ⟨m, hm, htm⟩
      exact ⟨m, hm.ne_nil, htm, (h m hm).mpr htm⟩
    · rintro ⟨m, hm, hcm⟩
      exact ⟨m, hm.ne_nil, (h m hm).mp hcm, hcm⟩

end

/-! ## The configuration -/

section
variable {m : List String}

end

namespace ContainerAttrs

variable (slots : ContainerAttrs)

/-- A `Columnar` override comes with a `trait` override written as a trait of the same built-in
    runtimes. -/
def Agree (env : Crates) : Prop :=
  ∀ c, slots.columnar = some c → ∃ t, slots.toDataframe = some t ∧
    ∀ m, env.Builtin m → (c.IsTraitOf m "Columnar" ↔ t.IsTraitOf m "ToDataFrame")

end ContainerAttrs

section
variable {env : Crates} {slots : ContainerAttrs} {m : List String}

theorem checkContainerAttrs_eq_ok {slots' : ContainerAttrs} :
    checkContainerAttrs env slots = .ok slots' ↔ slots' = slots ∧ slots.Agree env := by
  obtain ⟨toDataframe, columnar, decimal128Encode⟩ := slots
  rw [ContainerAttrs.Agree]
  cases columnar with
  | none => cases toDataframe <;> simp [checkContainerAttrs, mixedBuiltinRuntimeOverride, eq_comm]
  | some c =>
    cases toDataframe with
    | none => simp [checkContainerAttrs]
    | some t =>
      by_cases hagree : ∀ m, env.Builtin m → (c.IsTraitOf m "Columnar" ↔ t.IsTraitOf m "ToDataFrame")
      · have hpass := mixedBuiltinRuntimeOverride_eq_none.mpr hagree
        simpa [checkContainerAttrs, hpass, eq_comm] using fun _ => hagree
      · obtain ⟨e, he⟩ := Option.ne_none_iff_exists'.mp (mt mixedBuiltinRuntimeOverride_eq_none.mp hagree)
        simpa [checkContainerAttrs, he] using fun _ => not_forall.mp hagree |>.imp fun _ h => Classical.not_imp.mp h

end

end DfDerive
