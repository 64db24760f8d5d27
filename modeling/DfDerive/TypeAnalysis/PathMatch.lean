/-
  DfDerive.TypeAnalysis.PathMatch — paths compared segment by segment (`type_analysis/path_match.rs`).

  A path with a qualified self never matches, and `::` in front is not looked at. A match is
  the path it is compared to (`exactNoArgs_iff`), or that path with any arguments on its last
  segment (`exactWithLeafArgs_iff`).
-/

import DfDerive.Syn.FieldTypes
import Mathlib.Data.List.Basic
import Mathlib.Tactic.Common

namespace DfDerive

/-- The segments of a path without a qualified self. -/
abbrev PathView : Type := List FieldSegment

/-- `PathView::from_type_path`; a type that is not a path has none. -/
def FieldType.pathView : FieldType → Option PathView
  | .path none _ segments => some segments
  | _ => none

namespace PathView

def exactNoArgs (path : PathView) (segments : List String) : Bool :=
  path.length == segments.length &&
    (path.zip segments).all fun (segment, expected) => segment.ident == expected && segment.arguments.isNone

def exactWithLeafArgs (path : PathView) (segments : List String) : Bool :=
  path.length == segments.length &&
    (path.zip segments).zipIdx.all fun ((segment, expected), idx) =>
      segment.ident == expected && (idx + 1 == segments.length || segment.arguments.isNone)

def prefixNoArgs (path : PathView) (segments : List String) : Bool :=
  decide (segments.length < path.length) &&
    (path.zip segments).all fun (segment, expected) => segment.ident == expected && segment.arguments.isNone

def leaf (path : PathView) : Option FieldSegment := path.getLast?

end PathView

namespace FieldType

def pathIsExactNoArgs (ty : FieldType) (segments : List String) : Bool := ty.pathView.any (·.exactNoArgs segments)

def pathIsExactWithLeafArgs (ty : FieldType) (segments : List String) : Bool :=
  ty.pathView.any (·.exactWithLeafArgs segments)

def pathPrefixIsNoArgs (ty : FieldType) (segments : List String) : Bool := ty.pathView.any (·.prefixNoArgs segments)

def wrapperPathMatches (ty : FieldType) (bare : String) (qualified : List String) : Bool :=
  ty.pathView.any fun path => path.exactWithLeafArgs [bare] || path.exactWithLeafArgs qualified

end FieldType

/-! ## What matches -/

/-- The path with `arguments` on its last segment. -/
def applied : List String → FieldArguments → PathView
  | [], _ => []
  | [leaf], arguments => [.mk leaf arguments]
  | segment :: segments, arguments => .mk segment .none :: applied segments arguments

/-- The path without arguments. -/
def plain (segments : List String) : PathView := segments.map (.mk · .none)

theorem applied_cons (segment : String) {segments : List String} (h : segments ≠ []) (arguments : FieldArguments) :
    applied (segment :: segments) arguments = .mk segment .none :: applied segments arguments := by
  cases segments with
  | nil => exact absurd rfl h
  | cons s ss => rfl

theorem applied_none (segments : List String) : applied segments .none = plain segments := by
  induction segments with
  | nil => rfl
  | cons s ss ih =>
    cases ss with
    | nil => rfl
    | cons t ts => rw [applied_cons s (List.cons_ne_nil t ts), ih]; rfl

theorem applied_getLast? {segments : List String} (h : segments ≠ []) (arguments : FieldArguments) :
    ∃ leaf, (applied segments arguments).getLast? = some (.mk leaf arguments) := by
  induction segments with
  | nil => exact absurd rfl h
  | cons s ss ih =>
    cases ss with
    | nil => exact ⟨s, rfl⟩
    | cons t ts =>
      obtain ⟨leaf, hleaf⟩ := ih (List.cons_ne_nil t ts)
      refine ⟨leaf, ?_⟩
      rw [applied_cons s (List.cons_ne_nil t ts), List.getLast?_cons, hleaf]
      rfl

theorem applied_ident (segments : List String) (arguments : FieldArguments) :
    (applied segments arguments).map FieldSegment.ident = segments := by
  induction segments with
  | nil => rfl
  | cons s ss ih =>
    cases ss with
    | nil => rfl
    | cons t ts => rw [applied_cons s (List.cons_ne_nil t ts), List.map_cons, ih]; rfl

/-- A path is applied in one way. -/
theorem applied_inj {p q : List String} {a b : FieldArguments} (hp : p ≠ []) (h : applied p a = applied q b) :
    p = q ∧ a = b := by
  have hpq : p = q := by rw [← applied_ident p a, h, applied_ident]
  subst hpq
  obtain ⟨leaf, hleaf⟩ := applied_getLast? hp a
  obtain ⟨leaf', hleaf'⟩ := applied_getLast? hp b
  rw [h, hleaf'] at hleaf
  cases hleaf
  exact ⟨rfl, rfl⟩

namespace PathView

theorem exactNoArgs_iff {path : PathView} {segments : List String} :
    path.exactNoArgs segments = true ↔ path = plain segments := by
  induction path generalizing segments with
  | nil => cases segments <;> simp [exactNoArgs, plain]
  | cons p ps ih =>
    obtain ⟨ident, arguments⟩ := p
    cases segments with
    | nil => simp [exactNoArgs, plain]
    | cons s ss =>
      have htail := @ih ss
      simp only [exactNoArgs, plain, Bool.and_eq_true, beq_iff_eq, List.length_cons, Nat.add_right_cancel_iff,
        List.zip_cons_cons, List.all_cons, List.map_cons, List.cons.injEq, FieldSegment.mk.injEq,
        FieldSegment.ident_mk, FieldSegment.arguments_mk, FieldArguments.isNone_iff] at htail ⊢
      rw [← htail]
      tauto

/-- The loop with the position counted from `k`. -/
theorem leafArgs_loop {path : PathView} {segments : List String} (hne : segments ≠ []) (k : Nat) :
    ((path.length == segments.length &&
      ((path.zip segments).zipIdx k).all fun ((segment, expected), idx) =>
        segment.ident == expected && (idx + 1 == k + segments.length || segment.arguments.isNone)) = true) ↔
      ∃ arguments, path = applied segments arguments := by
  induction segments generalizing path k with
  | nil => exact absurd rfl hne
  | cons s ss ih =>
    cases path with
    | nil =>
      simp only [List.length_nil, List.length_cons, Bool.and_eq_true, beq_iff_eq]
      refine ⟨fun h => absurd h.1 (by omega), fun ⟨arguments, h⟩ => ?_⟩
      have hlen := congrArg (List.map FieldSegment.ident) h
      rw [applied_ident] at hlen
      cases hlen
    | cons p ps =>
      obtain ⟨ident, arguments⟩ := p
      cases ss with
      | nil =>
        cases ps with
        | nil =>
          simp only [List.length_cons, List.length_nil, List.zip_cons_cons, List.zip_nil_left, List.zipIdx_cons,
            List.zipIdx_nil, List.all_cons, List.all_nil, FieldSegment.ident_mk, applied, List.cons.injEq,
            FieldSegment.mk.injEq]
          simp
        | cons q qs =>
          simp only [List.length_cons, List.length_nil, Bool.and_eq_true, beq_iff_eq, applied, List.cons.injEq]
          constructor
          · rintro ⟨h, -⟩; omega
          · rintro ⟨_, -, h⟩; cases h
      | cons t ts =>
        have htail := @ih ps (List.cons_ne_nil t ts) (k + 1)
        have hk : k + 1 + (t :: ts).length = k + (s :: t :: ts).length := by simp only [List.length_cons]; omega
        have hpos : (k + 1 == k + (s :: t :: ts).length) = false := by
          simp only [List.length_cons, beq_eq_false_iff_ne]; omega
        have hlen : ((FieldSegment.mk ident arguments :: ps).length == (s :: t :: ts).length) =
            (ps.length == (t :: ts).length) := by
          simp only [List.length_cons, beq_eq_decide, Nat.add_right_cancel_iff]
        rw [hk] at htail
        simp only [Bool.and_eq_true] at htail
        simp only [List.zip_cons_cons, List.zipIdx_cons, List.all_cons, hpos, hlen, Bool.false_or, Bool.and_eq_true,
          FieldSegment.ident_mk, FieldSegment.arguments_mk, applied_cons s (List.cons_ne_nil t ts), List.cons.injEq,
          FieldSegment.mk.injEq, FieldArguments.isNone_iff, beq_iff_eq (a := ident)]
        constructor
        · rintro ⟨hl, ⟨hi, ha⟩, hrest⟩
          obtain ⟨args, hargs⟩ := htail.mp ⟨hl, hrest⟩
          exact ⟨args, ⟨hi, ha⟩, hargs⟩
        · rintro ⟨args, ⟨hi, ha⟩, hargs⟩
          obtain ⟨hl, hrest⟩ := htail.mpr ⟨args, hargs⟩
          exact ⟨hl, ⟨hi, ha⟩, hrest⟩

theorem exactWithLeafArgs_iff {path : PathView} {segments : List String} (hne : segments ≠ []) :
    path.exactWithLeafArgs segments = true ↔ ∃ arguments, path = applied segments arguments := by
  have h := @leafArgs_loop path segments hne 0
  rw [Nat.zero_add] at h
  exact h

end PathView

namespace FieldType

theorem pathView_eq_some {ty : FieldType} {path : PathView} :
    ty.pathView = some path ↔ ∃ leadingColon, ty = .path none leadingColon path := by
  constructor
  · intro h
    unfold pathView at h
    split at h
    · cases h; exact ⟨_, rfl⟩
    · cases h
  · rintro ⟨leadingColon, rfl⟩
    rfl

theorem pathIsExactNoArgs_iff {ty : FieldType} {segments : List String} :
    ty.pathIsExactNoArgs segments = true ↔ ∃ leadingColon, ty = .path none leadingColon (plain segments) := by
  simp only [pathIsExactNoArgs, Option.any_eq_true, pathView_eq_some, PathView.exactNoArgs_iff]
  constructor
  · rintro ⟨path, ⟨leadingColon, rfl⟩, rfl⟩; exact ⟨leadingColon, rfl⟩
  · rintro ⟨leadingColon, rfl⟩; exact ⟨_, ⟨leadingColon, rfl⟩, rfl⟩

theorem pathIsExactWithLeafArgs_iff {ty : FieldType} {segments : List String} (hne : segments ≠ []) :
    ty.pathIsExactWithLeafArgs segments = true ↔
      ∃ leadingColon arguments, ty = .path none leadingColon (applied segments arguments) := by
  simp only [pathIsExactWithLeafArgs, Option.any_eq_true, pathView_eq_some, PathView.exactWithLeafArgs_iff hne]
  constructor
  · rintro ⟨path, ⟨leadingColon, rfl⟩, arguments, rfl⟩; exact ⟨leadingColon, arguments, rfl⟩
  · rintro ⟨leadingColon, arguments, rfl⟩; exact ⟨_, ⟨leadingColon, rfl⟩, arguments, rfl⟩

end FieldType

end DfDerive
