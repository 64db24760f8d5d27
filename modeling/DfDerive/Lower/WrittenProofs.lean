/-
  DfDerive.Lower.WrittenProofs — a written struct is lowered as the struct it means.

  A written field means a declared field when its attributes spell the disposition and, unless
  it is skipped, its type has the meaning and does not hold the struct itself (`FieldMeans`).
  Lowering a written field is lowering what it means (`lowerWrittenField_ok`), field by field
  for a whole struct (`lowerEntries_ok`). It fails for the first reason in the order
  attributes, type, the struct itself, lowering (`FieldRefused`), at the first such field
  (`lowerEntries_error`).
-/

import DfDerive.Attrs.FieldProofs
import DfDerive.Lower.ValidationProofs
import DfDerive.Lower.Written

namespace DfDerive

open Lib

/-! ## Errors of a part -/

theorem mapError_bind_ok {ε ε' α β : Type} {r : Except ε α} {f : ε → ε'} {k : α → Except ε' β} {b : β} :
    (r.mapError f >>= k) = .ok b ↔ ∃ a, r = .ok a ∧ k a = .ok b := by
  rw [bind_eq_ok]
  cases r with
  | error e =>
    constructor
    · rintro ⟨_, h, -⟩
      cases h
    · rintro ⟨_, h, -⟩
      cases h
  | ok a =>
    constructor
    · rintro ⟨_, h, hk⟩
      cases h
      exact ⟨a, rfl, hk⟩
    · rintro ⟨_, h, hk⟩
      cases h
      exact ⟨a, rfl, hk⟩

theorem mapError_bind_error {ε ε' α β : Type} {r : Except ε α} {f : ε → ε'} {k : α → Except ε' β} {e : ε'} :
    (r.mapError f >>= k) = .error e ↔ (∃ e', r = .error e' ∧ f e' = e) ∨ ∃ a, r = .ok a ∧ k a = .error e := by
  cases r with
  | error e' =>
    constructor
    · intro h
      exact Or.inl ⟨e', rfl, Except.error.inj h⟩
    · rintro (⟨e'', h, rfl⟩ | ⟨_, h, _⟩)
      · cases h
        rfl
      · cases h
  | ok a =>
    constructor
    · intro h
      exact Or.inr ⟨a, rfl, h⟩
    · rintro (⟨_, h, _⟩ | ⟨a', h, hk⟩)
      · cases h
      · cases h
        exact hk

/-! ## Fields -/

/-- Lowering a declared field is the analysis of its type and then what is left. -/
theorem lowerField_include (ty : RustType) (conversion : FieldConversion) (name : String) (fieldIndex : Option Nat) :
    lowerField ⟨ty, .include conversion⟩ name fieldIndex = (do
      let analyzed ← analyzeType ty
      .ok (some (← lowerAnalyzed name fieldIndex conversion analyzed))) := by
  cases hty : analyzeType ty with
  | error e => simp only [lowerField, hty, error_bind]
  | ok analyzed =>
    simp only [lowerField, lowerAnalyzed, hty, ok_bind, bind_assoc]
    cases conversion <;> simp only [ok_bind, bind_assoc]

section
variable (text : FieldType → TypePath) (structName : String) (genericParams : List String)

/-- The written field declares `d`. -/
structure FieldMeans (field : WrittenField) (d : FieldDecl) : Prop where
  inRange : d.disposition.InRange
  spelled : fieldItems field.attrs ∈ d.disposition.spellings
  means : d.disposition ≠ .skip → Means genericParams text field.ty d.ty ∧ ¬ HoldsItself genericParams structName field.ty

/-- The written field is refused, by its attributes, its type or the way they go together. -/
inductive FieldRefused (field : WrittenField) (name : String) (fieldIndex : Option Nat) : FieldError → Prop where
  | attrs {e : FieldAttrError} (refused : parseFieldDisposition name field.attrs = .error e) :
      FieldRefused field name fieldIndex (.attrs e)
  | type {conversion : FieldConversion} {e : TypeError}
      (spelled : parseFieldDisposition name field.attrs = .ok (.include conversion))
      (refused : Refused genericParams text field.ty e) : FieldRefused field name fieldIndex (.type e)
  | selfReference {conversion : FieldConversion} {rt : RustType}
      (spelled : parseFieldDisposition name field.attrs = .ok (.include conversion))
      (means : Means genericParams text field.ty rt) (self : HoldsItself genericParams structName field.ty) :
      FieldRefused field name fieldIndex (.selfReference ⟨name, structName⟩)
  | lower {d : FieldDecl} {e : LowerError} (means : FieldMeans text structName genericParams field d)
      (refused : lowerField d name fieldIndex = .error e) : FieldRefused field name fieldIndex (.lower e)

variable {text structName genericParams} {field : WrittenField} {name : String} {fieldIndex : Option Nat}

theorem lowerWrittenField_of_include {conversion : FieldConversion}
    (h : parseFieldDisposition name field.attrs = .ok (.include conversion)) :
    lowerWrittenField text structName genericParams field name fieldIndex = (do
      let analyzed ← (field.ty.analyzeType genericParams).mapError .type
      (rejectDirectSelfReference name structName analyzed).mapError .selfReference
      .ok (some (← (lowerAnalyzed name fieldIndex conversion (analyzed.recognized text)).mapError .lower))) := by
  simp only [lowerWrittenField, h, Except.mapError, ok_bind]

theorem lowerWrittenField_of_skip (h : parseFieldDisposition name field.attrs = .ok .skip) :
    lowerWrittenField text structName genericParams field name fieldIndex = .ok none := by
  simp only [lowerWrittenField, h, Except.mapError, ok_bind]

theorem lowerWrittenField_ok {r : Option FieldIR} :
    lowerWrittenField text structName genericParams field name fieldIndex = .ok r ↔
      ∃ d, FieldMeans text structName genericParams field d ∧ lowerField d name fieldIndex = .ok r := by
  constructor
  · intro h
    cases hparse : parseFieldDisposition name field.attrs with
    | error e =>
      simp only [lowerWrittenField, hparse, Except.mapError, error_bind] at h
      cases h
    | ok d =>
      obtain ⟨hrange, hspelled⟩ := (parseFieldDisposition_spelled name field.attrs d).mp hparse
      cases d with
      | skip =>
        rw [lowerWrittenField_of_skip hparse] at h
        cases h
        exact ⟨⟨.mk [] (.leaf .bool), .skip⟩, ⟨hrange, hspelled, fun hne => absurd rfl hne⟩, rfl⟩
      | «include» conversion =>
        rw [lowerWrittenField_of_include hparse] at h
        obtain ⟨analyzed, hanalyzed, h⟩ := mapError_bind_ok.mp h
        obtain ⟨u, hself, h⟩ := mapError_bind_ok.mp h
        obtain ⟨ir, hir, h⟩ := mapError_bind_ok.mp h
        cases h
        obtain ⟨rt, hrt, hrec⟩ := (analyzeType_ok_iff genericParams text field.ty _).mp ⟨analyzed, hanalyzed, rfl⟩
        have hnot := (rejectDirectSelfReference_iff hanalyzed name structName).1.mp hself
        refine ⟨⟨rt, .include conversion⟩, ⟨hrange, hspelled, fun _ => ⟨hrt, hnot⟩⟩, ?_⟩
        rw [lowerField_include, hrec, ok_bind, hir, ok_bind]
  · rintro ⟨⟨ty, d⟩, ⟨hrange, hspelled, hmeans⟩, h⟩
    have hparse := (parseFieldDisposition_spelled name field.attrs d).mpr ⟨hrange, hspelled⟩
    cases d with
    | skip =>
      rw [lowerWrittenField_of_skip hparse]
      cases h
      rfl
    | «include» conversion =>
      obtain ⟨hrt, hself⟩ := hmeans nofun
      obtain ⟨analyzed, hanalyzed, hrec⟩ := hrt.reads.analyzeType
      rw [lowerField_include, hrec, ok_bind] at h
      obtain ⟨ir, hir, h⟩ := bind_eq_ok.mp h
      cases h
      have hcheck := (rejectDirectSelfReference_iff hanalyzed name structName).1.mpr hself
      rw [lowerWrittenField_of_include hparse]
      simp only [hanalyzed, hcheck, hir, Except.mapError, ok_bind]

theorem lowerWrittenField_error {e : FieldError} :
    lowerWrittenField text structName genericParams field name fieldIndex = .error e ↔
      FieldRefused text structName genericParams field name fieldIndex e := by
  constructor
  · intro h
    cases hparse : parseFieldDisposition name field.attrs with
    | error e' =>
      simp only [lowerWrittenField, hparse, Except.mapError, error_bind] at h
      cases h
      exact .attrs hparse
    | ok d =>
      obtain ⟨hrange, hspelled⟩ := (parseFieldDisposition_spelled name field.attrs d).mp hparse
      cases d with
      | skip =>
        rw [lowerWrittenField_of_skip hparse] at h
        cases h
      | «include» conversion =>
        rw [lowerWrittenField_of_include hparse] at h
        rcases mapError_bind_error.mp h with ⟨e', he', rfl⟩ | ⟨analyzed, hanalyzed, h⟩
        · exact .type hparse ((analyzeType_refused_iff genericParams text field.ty e').mp he')
        · obtain ⟨rt, hrt, hrec⟩ := (analyzeType_ok_iff genericParams text field.ty _).mp ⟨analyzed, hanalyzed, rfl⟩
          obtain ⟨hok, herror⟩ := rejectDirectSelfReference_iff hanalyzed name structName
          rcases mapError_bind_error.mp h with ⟨e', he', rfl⟩ | ⟨u, hself, h⟩
          · obtain ⟨hself, rfl⟩ := (herror e').mp he'
            exact .selfReference hparse hrt hself
          · rcases mapError_bind_error.mp h with ⟨e', he', rfl⟩ | ⟨ir, -, h⟩
            · refine .lower (d := ⟨rt, .include conversion⟩) ⟨hrange, hspelled, fun _ => ⟨hrt, hok.mp hself⟩⟩ ?_
              rw [lowerField_include, hrec, ok_bind, he', error_bind]
            · cases h
  · intro h
    cases h with
    | attrs hparse => simp only [lowerWrittenField, hparse, Except.mapError, error_bind]
    | type hparse hrefused =>
      rw [lowerWrittenField_of_include hparse]
      simp only [(analyzeType_refused_iff genericParams text field.ty _).mpr hrefused, Except.mapError, error_bind]
    | selfReference hparse hrt hself =>
      obtain ⟨analyzed, hanalyzed, -⟩ := hrt.reads.analyzeType
      have hcheck := ((rejectDirectSelfReference_iff hanalyzed name structName).2 _).mpr ⟨hself, rfl⟩
      rw [lowerWrittenField_of_include hparse]
      simp only [hanalyzed, hcheck, Except.mapError, ok_bind, error_bind]
    | lower hmeans hrefused =>
      rename_i d e
      obtain ⟨ty, d⟩ := d
      have hparse := (parseFieldDisposition_spelled name field.attrs d).mpr ⟨hmeans.inRange, hmeans.spelled⟩
      cases d with
      | skip => cases hrefused
      | «include» conversion =>
        obtain ⟨hrt, hself⟩ := hmeans.means nofun
        obtain ⟨analyzed, hanalyzed, hrec⟩ := hrt.reads.analyzeType
        have hcheck := (rejectDirectSelfReference_iff hanalyzed name structName).1.mpr hself
        rw [lowerField_include, hrec, ok_bind] at hrefused
        rw [lowerWrittenField_of_include hparse]
        cases hir : lowerAnalyzed name fieldIndex conversion (analyzed.recognized text) with
        | error e' =>
          rw [hir, error_bind] at hrefused
          cases hrefused
          simp only [hanalyzed, hcheck, hir, Except.mapError, ok_bind, error_bind]
        | ok ir =>
          rw [hir, ok_bind] at hrefused
          cases hrefused

/-! ## Structs -/

theorem lowerEntries_ok : ∀ {entries : List (WrittenField × String × Option Nat)} {lowered : List FieldIR},
    lowerEntries text structName genericParams entries = .ok lowered ↔
      ∃ rs, List.Forall₂ (fun entry r => lowerWrittenField text structName genericParams entry.1 entry.2.1 entry.2.2 = .ok r)
        entries rs ∧ lowered = rs.flatMap Option.toList
  | [], lowered => by
    constructor
    · intro h
      cases h
      exact ⟨[], .nil, rfl⟩
    · rintro ⟨rs, hrs, rfl⟩
      cases hrs
      rfl
  | (field, name, fieldIndex) :: entries, lowered => by
    rw [lowerEntries, bind_eq_ok]
    constructor
    · rintro ⟨r, hr, h⟩
      obtain ⟨rest, hrest, h⟩ := bind_eq_ok.mp h
      cases h
      obtain ⟨rs, hrs, rfl⟩ := lowerEntries_ok.mp hrest
      exact ⟨r :: rs, .cons hr hrs, rfl⟩
    · rintro ⟨rs, hrs, rfl⟩
      cases hrs with
      | cons hr hrs =>
        refine ⟨_, hr, ?_⟩
        rw [lowerEntries_ok.mpr ⟨_, hrs, rfl⟩, ok_bind]
        rfl

/-- The first field that fails decides. -/
theorem lowerEntries_error {e : FieldError} : ∀ {entries : List (WrittenField × String × Option Nat)},
    lowerEntries text structName genericParams entries = .error e ↔
      ∃ before entry after, entries = before ++ entry :: after ∧
        (∀ x ∈ before, ∃ r, lowerWrittenField text structName genericParams x.1 x.2.1 x.2.2 = .ok r) ∧
        lowerWrittenField text structName genericParams entry.1 entry.2.1 entry.2.2 = .error e
  | [] => by
    refine ⟨nofun, ?_⟩
    rintro ⟨before, entry, after, h, -⟩
    cases before <;> cases h
  | (field, name, fieldIndex) :: entries => by
    rw [lowerEntries]
    cases hfield : lowerWrittenField text structName genericParams field name fieldIndex with
    | error e' =>
      rw [error_bind]
      constructor
      · intro h
        cases h
        exact ⟨[], _, entries, rfl, nofun, hfield⟩
      · rintro ⟨before, entry, after, h, hbefore, hentry⟩
        cases before with
        | nil =>
          cases h
          rw [hfield] at hentry
          cases hentry
          rfl
        | cons first before =>
          cases h
          obtain ⟨r, hr⟩ := hbefore _ List.mem_cons_self
          rw [hfield] at hr
          cases hr
    | ok r =>
      have hrest : (do
          let rest ← lowerEntries text structName genericParams entries
          Except.ok (r.toList ++ rest)) = Except.error e ↔ lowerEntries text structName genericParams entries = .error e := by
        cases lowerEntries text structName genericParams entries with
        | error e' => exact ⟨fun h => by cases h; rfl, fun h => by cases h; rfl⟩
        | ok rest => exact ⟨nofun, nofun⟩
      rw [ok_bind, hrest, lowerEntries_error]
      constructor
      · rintro ⟨before, entry, after, rfl, hbefore, hentry⟩
        refine ⟨_ :: before, entry, after, rfl, fun x hx => ?_, hentry⟩
        rcases List.mem_cons.mp hx with rfl | hx
        · exact ⟨r, hfield⟩
        · exact hbefore x hx
      · rintro ⟨before, entry, after, h, hbefore, hentry⟩
        cases before with
        | nil =>
          cases h
          rw [hfield] at hentry
          cases hentry
        | cons first before =>
          cases h
          exact ⟨before, entry, after, rfl, fun x hx => hbefore x (List.mem_cons_of_mem _ hx), hentry⟩

end

end DfDerive
