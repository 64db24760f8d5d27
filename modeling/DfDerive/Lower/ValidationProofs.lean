/-
  DfDerive.Lower.ValidationProofs — which fields hold the struct itself.

  A type holds the paths of other structs that are left under its wrappers and in its tuples
  (`Holds`); the analysis keeps exactly these (`Means.leaves`), so the check refuses a field
  exactly when it holds a path by which the struct can name itself
  (`rejectDirectSelfReference_iff`).
-/

import DfDerive.Lower.Validation
import DfDerive.TypeAnalysis.Exact

namespace DfDerive

open Lib FieldType

/-- The paths by which a struct can name itself, with any arguments. -/
def selfPaths (structName : String) : List (List String) :=
  [["Self"], [structName], ["crate", structName], ["self", structName]]

theorem isDirectSelfType_iff {ty : FieldType} {structName : String} :
    isDirectSelfType ty structName = true ↔ ty.SpelledIn (selfPaths structName) := by
  constructor
  · intro h
    unfold isDirectSelfType at h
    split at h
    · rename_i last hview
      obtain ⟨leadingColon, rfl⟩ := pathView_eq_some.mp hview
      obtain ⟨ident, arguments⟩ := last
      rw [Bool.or_eq_true, beq_iff_eq, beq_iff_eq] at h
      rcases h with hident | hident
      · exact ⟨leadingColon, ["Self"], by simp [selfPaths], arguments, by rw [← hident]; rfl⟩
      · exact ⟨leadingColon, [structName], by simp [selfPaths], arguments, by rw [← hident]; rfl⟩
    · rename_i first last hview
      obtain ⟨leadingColon, rfl⟩ := pathView_eq_some.mp hview
      obtain ⟨ident, arguments⟩ := first
      obtain ⟨leaf, leafArguments⟩ := last
      rw [Bool.and_eq_true, Bool.and_eq_true, Bool.or_eq_true, beq_iff_eq, beq_iff_eq, beq_iff_eq,
        FieldArguments.isNone_iff] at h
      obtain ⟨⟨hnone, hfirst⟩, hleaf⟩ := h
      simp only [FieldSegment.ident_mk, FieldSegment.arguments_mk] at hnone hfirst hleaf
      subst hnone hleaf
      rcases hfirst with rfl | rfl
      · exact ⟨leadingColon, ["crate", leaf], by simp [selfPaths], leafArguments, rfl⟩
      · exact ⟨leadingColon, ["self", leaf], by simp [selfPaths], leafArguments, rfl⟩
    · cases h
  · rintro ⟨leadingColon, path, hpath, arguments, rfl⟩
    simp only [selfPaths, List.mem_cons, List.not_mem_nil, or_false] at hpath
    rcases hpath with rfl | rfl | rfl | rfl <;>
      simp [isDirectSelfType, pathView, applied, FieldArguments.isNone]

/-- `ty` holds the row type written as `leaf`. -/
inductive Holds (genericParams : List String) : FieldType → FieldType → Prop where
  | here {ty : FieldType} (foreign : ty.IsForeign genericParams) : Holds genericParams ty ty
  | wrapper {ty inner leaf : FieldType} {w : RawWrapper} (wraps : IsWrapper ty w inner)
      (holds : Holds genericParams inner leaf) : Holds genericParams ty leaf
  | element {elems : List FieldType} {elem leaf : FieldType} (mem : elem ∈ elems)
      (holds : Holds genericParams elem leaf) : Holds genericParams (.tuple elems) leaf

/-- The field would hold the struct itself. -/
def HoldsItself (genericParams : List String) (structName : String) (ty : FieldType) : Prop :=
  ∃ leaf, Holds genericParams ty leaf ∧ leaf.SpelledIn (selfPaths structName)

/-! ## What the check looks at -/

mutual
def AnalyzedFieldType.structLeaves : AnalyzedFieldType → List FieldType
  | .mk base _ _ _ => base.structLeaves

def AnalyzedFieldBase.structLeaves : AnalyzedFieldBase → List FieldType
  | .struct ty => [ty]
  | .tuple elements => structLeavesOf elements
  | _ => []

def structLeavesOf : List AnalyzedFieldType → List FieldType
  | [] => []
  | element :: elements => element.structLeaves ++ structLeavesOf elements
end

/-- The first leaf that names the struct is reported. -/
def rejectSelfLeaves (field structName : String) (leaves : List FieldType) : Except SelfReference Unit :=
  if leaves.any (isDirectSelfType · structName) then .error ⟨field, structName⟩ else .ok ()

theorem rejectSelfLeaves_append (field structName : String) (a b : List FieldType) :
    (do
      rejectSelfLeaves field structName a
      rejectSelfLeaves field structName b) = rejectSelfLeaves field structName (a ++ b) := by
  simp only [rejectSelfLeaves, List.any_append]
  cases a.any (isDirectSelfType · structName) <;> rfl

mutual
theorem rejectDirectSelfReference_eq (field structName : String) : ∀ analyzed : AnalyzedFieldType,
    rejectDirectSelfReference field structName analyzed = rejectSelfLeaves field structName analyzed.structLeaves
  | .mk (.struct ty) _ _ _ => by
    rw [rejectDirectSelfReference, rejectSelfLeaves]
    simp only [AnalyzedFieldType.structLeaves, AnalyzedFieldBase.structLeaves, List.any_cons, List.any_nil, Bool.or_false]
  | .mk (.tuple elements) _ _ _ => by
    rw [rejectDirectSelfReference, rejectSelfInElements_eq field structName elements]
    rfl
  | .mk (.numeric _) _ _ _ | .mk .string _ _ _ | .mk .borrowedStr _ _ _ | .mk .cowStr _ _ _ | .mk .borrowedBytes _ _ _
  | .mk .cowBytes _ _ _ | .mk .borrowedSlice _ _ _ | .mk .cowSlice _ _ _ | .mk .bool _ _ _ | .mk .dateTimeTz _ _ _
  | .mk .naiveDate _ _ _ | .mk .naiveTime _ _ _ | .mk .naiveDateTime _ _ _ | .mk .stdDuration _ _ _
  | .mk .chronoDuration _ _ _ | .mk .decimal _ _ _ | .mk (.generic _) _ _ _ => rfl

theorem rejectSelfInElements_eq (field structName : String) : ∀ elements : List AnalyzedFieldType,
    rejectSelfInElements field structName elements = rejectSelfLeaves field structName (structLeavesOf elements)
  | [] => rfl
  | element :: elements => by
    rw [rejectSelfInElements, rejectDirectSelfReference_eq field structName element,
      rejectSelfInElements_eq field structName elements, rejectSelfLeaves_append]
    rfl
end

/-! ## The leaves of a meaning -/

section
variable {genericParams : List String} {text : FieldType → TypePath}

theorem Holds.of_wraps {ty inner leaf : FieldType} {w : RawWrapper} (hw : IsWrapper ty w inner) :
    Holds genericParams ty leaf ↔ Holds genericParams inner leaf := by
  constructor
  · intro h
    cases h with
    | here foreign => exact absurd hw (foreign.notWrapped _ _)
    | wrapper wraps holds =>
      have hlayer := wraps.peelLayer
      rw [hw.peelLayer] at hlayer
      cases hlayer
      exact holds
    | element mem holds =>
      have hstays := hw.peelLayer.symm.trans (peelLayer_tuple _)
      cases hstays
  · exact Holds.wrapper hw

theorem Holds.of_stays {ty leaf : FieldType} (hstays : ty.peelLayer = .ok none) (htuple : ∀ elems, ty ≠ .tuple elems) :
    Holds genericParams ty leaf ↔ ty.IsForeign genericParams ∧ leaf = ty := by
  constructor
  · intro h
    cases h with
    | here foreign => exact ⟨foreign, rfl⟩
    | wrapper wraps holds =>
      rw [wraps.peelLayer] at hstays
      cases hstays
    | element mem holds => exact absurd rfl (htuple _)
  · rintro ⟨hforeign, rfl⟩
    exact .here hforeign

theorem Holds.of_tuple {elems : List FieldType} {leaf : FieldType} :
    Holds genericParams (.tuple elems) leaf ↔ ∃ elem ∈ elems, Holds genericParams elem leaf := by
  constructor
  · intro h
    cases h with
    | here foreign =>
      obtain ⟨_, _, _, heq⟩ := foreign.path
      cases heq
    | wrapper wraps holds =>
      have hstays := wraps.peelLayer.symm.trans (peelLayer_tuple _)
      cases hstays
    | element mem holds => exact ⟨_, mem, holds⟩
  · rintro ⟨elem, hmem, holds⟩
    exact .element hmem holds

/-- The base of a type that is no tuple holds the type itself, when it is foreign. -/
theorem structLeaves_of_leaf (text : FieldType → TypePath) {ty leaf : FieldType} {base : LeafBase} {b : AnalyzedFieldBase}
    (hmeans : BaseMeans genericParams text ty (.leaf base)) (hb : FieldType.analyzeBaseType genericParams ty = .ok b) :
    leaf ∈ b.structLeaves ↔ Holds genericParams ty leaf := by
  have htuple : ∀ elems, ty ≠ .tuple elems := by
    rintro elems rfl
    have hread := hmeans.reads.reads
    obtain ⟨a, ha, hrec⟩ := hread
    rw [hb] at ha
    cases ha
    cases elems with
    | nil =>
      rw [FieldType.analyzeBaseType] at hb
      cases hb
    | cons elem elems =>
      rw [FieldType.analyzeBaseType] at hb
      obtain ⟨as, -, hb⟩ := bind_eq_ok.mp hb
      cases hb
      cases hrec
  rw [Holds.of_stays hmeans.reads.stays htuple]
  by_cases hforeign : ty.IsForeign genericParams
  · rw [analyzeBaseType_path hforeign.path, hforeign.analyzePathBase] at hb
    cases hb
    simp [AnalyzedFieldBase.structLeaves, hforeign]
  · -- no other base keeps a path
    have hnone : b.structLeaves = [] := by
      obtain ⟨a, ha, hrec⟩ := hmeans.reads.reads
      rw [hb] at ha
      cases ha
      cases b with
      | struct found =>
        have hbase : base = .struct (text found) := by
          have hleaf := Except.ok.inj hrec
          rw [AnalyzedFieldBase.recognized] at hleaf
          exact AnalyzedBase.leaf.inj hleaf
        cases hmeans with
        | struct h => exact absurd h hforeign
        | known hparam h =>
          rename_i known
          cases known <;> cases hbase
        | _ => cases hbase
      | tuple elements => cases hrec
      | _ => rfl
    simp [hnone, hforeign]

mutual
theorem Means.leaves {ty : FieldType} {rt : RustType} : Means genericParams text ty rt → ∀ {p p' : PeeledType}
    {b : AnalyzedFieldBase}, baseFrom genericParams p ty = .ok (p', b) → ∀ leaf,
      leaf ∈ b.structLeaves ↔ Holds genericParams ty leaf
  | .wrapper hw h => fun hb leaf => by
    rw [baseFrom_wraps hw] at hb
    rw [Holds.of_wraps hw]
    exact h.leaves hb leaf
  | .base h => fun hb leaf => by
    rw [baseFrom_stays h.reads.stays, h.reads.passes, ok_bind] at hb
    obtain ⟨b, hbase, hb⟩ := bind_eq_ok.mp hb
    cases hb
    exact h.leaves hbase leaf

theorem BaseMeans.leaves {ty : FieldType} {base : RustBase} : BaseMeans genericParams text ty base →
    ∀ {b : AnalyzedFieldBase}, FieldType.analyzeBaseType genericParams ty = .ok b → ∀ leaf,
      leaf ∈ b.structLeaves ↔ Holds genericParams ty leaf
  | .tuple hne h => fun hb leaf => by
    rename_i elems elements
    cases elems with
    | nil => exact absurd rfl hne
    | cons elem elems =>
      rw [FieldType.analyzeBaseType] at hb
      obtain ⟨as, has, hb⟩ := bind_eq_ok.mp hb
      cases hb
      rw [Holds.of_tuple]
      exact h.leaves has leaf
  | .borrowedStr h => fun hb _ => structLeaves_of_leaf text (.borrowedStr h) hb
  | .borrowedBytes h => fun hb _ => structLeaves_of_leaf text (.borrowedBytes h) hb
  | .borrowedSlice h => fun hb _ => structLeaves_of_leaf text (.borrowedSlice h) hb
  | .cowStr hcow h => fun hb _ => structLeaves_of_leaf text (.cowStr hcow h) hb
  | .cowBytes hcow h => fun hb _ => structLeaves_of_leaf text (.cowBytes hcow h) hb
  | .cowSlice hcow h => fun hb _ => structLeaves_of_leaf text (.cowSlice hcow h) hb
  | .generic h => fun hb _ => structLeaves_of_leaf text (.generic h) hb
  | .known hparam h => fun hb _ => structLeaves_of_leaf text (.known hparam h) hb
  | .struct h => fun hb _ => structLeaves_of_leaf text (.struct h) hb

theorem EachMeans.leaves {tys : List FieldType} {rts : List RustType} : EachMeans genericParams text tys rts →
    ∀ {as : List AnalyzedFieldType}, FieldType.analyzeTypes genericParams tys = .ok as → ∀ leaf,
      leaf ∈ structLeavesOf as ↔ ∃ ty ∈ tys, Holds genericParams ty leaf
  | .nil => fun has leaf => by
    rw [FieldType.analyzeTypes] at has
    cases has
    simp [structLeavesOf]
  | .cons h hs => fun has leaf => by
    rw [FieldType.analyzeTypes] at has
    obtain ⟨a, ha, has⟩ := bind_eq_ok.mp has
    obtain ⟨as, hrest, has⟩ := bind_eq_ok.mp has
    cases has
    rw [analyzeType_baseFrom] at ha
    obtain ⟨⟨p, b⟩, hb, ha⟩ := bind_eq_ok.mp ha
    cases ha
    simp only [structLeavesOf, AnalyzedFieldType.structLeaves, List.mem_append, List.exists_mem_cons_iff,
      h.leaves hb leaf, hs.leaves hrest leaf]
end

theorem analyzeType_structLeaves {ty : FieldType} {a : AnalyzedFieldType}
    (h : FieldType.analyzeType genericParams ty = .ok a) (leaf : FieldType) :
    leaf ∈ a.structLeaves ↔ Holds genericParams ty leaf := by
  obtain ⟨rt, hrt, -⟩ := (analyzeType_ok_iff genericParams (fun _ => "") ty _).mp ⟨a, h, rfl⟩
  rw [analyzeType_baseFrom] at h
  obtain ⟨⟨p, b⟩, hb, h⟩ := bind_eq_ok.mp h
  cases h
  exact hrt.leaves hb leaf

/-! ## The check -/

theorem rejectDirectSelfReference_iff {ty : FieldType} {a : AnalyzedFieldType}
    (h : FieldType.analyzeType genericParams ty = .ok a) (field structName : String) :
    (rejectDirectSelfReference field structName a = .ok () ↔ ¬ HoldsItself genericParams structName ty) ∧
      ∀ e, rejectDirectSelfReference field structName a = .error e ↔
        HoldsItself genericParams structName ty ∧ e = ⟨field, structName⟩ := by
  have hany : a.structLeaves.any (isDirectSelfType · structName) = true ↔ HoldsItself genericParams structName ty := by
    simp only [List.any_eq_true, isDirectSelfType_iff, analyzeType_structLeaves h, HoldsItself]
  rw [rejectDirectSelfReference_eq, rejectSelfLeaves]
  by_cases hself : HoldsItself genericParams structName ty
  · rw [if_pos (hany.mpr hself)]
    refine ⟨⟨nofun, fun hnot => absurd hself hnot⟩, fun e => ⟨fun he => ?_, ?_⟩⟩
    · cases he
      exact ⟨hself, rfl⟩
    · rintro ⟨-, rfl⟩
      rfl
  · rw [if_neg fun hs => hself (hany.mp hs)]
    exact ⟨⟨fun _ => hself, fun _ => rfl⟩, fun e => ⟨nofun, fun hs => absurd hs.1 hself⟩⟩

end

end DfDerive
