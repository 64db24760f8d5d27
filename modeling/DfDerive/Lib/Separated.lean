/-
  DfDerive.Lib.Separated — words extended after a separator.

  `Extends sep a b` says that `b` is `a`, or `a` and more text that starts with `sep`. Two
  words are `Apart` when neither extends the other; what extends words that are apart is
  apart, so distinct stems give distinct names (`Apart.extend`). Words written one after
  another, each after a separator, can be read back (`flatMap_sep_injective`).
-/

import Mathlib.Data.List.Basic
import Mathlib.Tactic.Common

namespace DfDerive.Lib

variable {α : Type} {sep : α} {a b c x y p : List α}

def Extends (sep : α) (a b : List α) : Prop := ∃ s, b = a ++ s ∧ ∀ x ∈ s.head?, x = sep

def Apart (sep : α) (a b : List α) : Prop := ¬ Extends sep a b ∧ ¬ Extends sep b a

theorem Extends.refl (sep : α) (a : List α) : Extends sep a a := ⟨[], (List.append_nil a).symm, nofun⟩

theorem Extends.more (sep : α) (a s : List α) : Extends sep a (a ++ sep :: s) :=
  ⟨sep :: s, rfl, fun x hx => by cases hx; rfl⟩

theorem Extends.trans (hab : Extends sep a b) (hbc : Extends sep b c) : Extends sep a c := by
  obtain ⟨s, rfl, hs⟩ := hab
  obtain ⟨t, rfl, ht⟩ := hbc
  refine ⟨s ++ t, List.append_assoc a s t, ?_⟩
  cases s with
  | nil => exact ht
  | cons _ _ => exact hs

/-- Two words extended by one word extend one another. -/
theorem Extends.comparable (hac : Extends sep a c) (hbc : Extends sep b c) : Extends sep a b ∨ Extends sep b a := by
  obtain ⟨s, rfl, hs⟩ := hac
  obtain ⟨t, h, ht⟩ := hbc
  rcases List.append_eq_append_iff.mp h with ⟨u, rfl, rfl⟩ | ⟨u, rfl, rfl⟩
  · refine Or.inl ⟨u, rfl, ?_⟩
    cases u with
    | nil => exact nofun
    | cons _ _ => exact hs
  · refine Or.inr ⟨u, rfl, ?_⟩
    cases u with
    | nil => exact nofun
    | cons _ _ => exact ht

namespace Apart

theorem symm (h : Apart sep a b) : Apart sep b a := ⟨h.2, h.1⟩

theorem ne (h : Apart sep a b) : a ≠ b := fun heq => h.1 (heq ▸ Extends.refl sep a)

theorem extend (h : Apart sep a b) (hx : Extends sep a x) (hy : Extends sep b y) : Apart sep x y := by
  refine ⟨fun hxy => ?_, fun hyx => ?_⟩
  · rcases (hx.trans hxy).comparable hy with hab | hba
    · exact h.1 hab
    · exact h.2 hba
  · rcases hx.comparable (hy.trans hyx) with hab | hba
    · exact h.1 hab
    · exact h.2 hba

/-- Different words without separators are apart. -/
theorem of_not_mem (ha : sep ∉ a) (hb : sep ∉ b) (hne : a ≠ b) : Apart sep a b := by
  have hnot : ∀ {a b : List α}, sep ∉ b → a ≠ b → ¬ Extends sep a b := by
    rintro a b hb hne ⟨s, rfl, hs⟩
    cases s with
    | nil => exact hne (List.append_nil a).symm
    | cons x s =>
      rw [hs x rfl] at hb
      exact hb (List.mem_append_right a List.mem_cons_self)
  exact ⟨hnot hb hne, hnot ha hne.symm⟩

/-- A common start does not bring two words together. -/
theorem append_left (h : Apart sep a b) (p : List α) : Apart sep (p ++ a) (p ++ b) := by
  have hnot : ∀ {a b : List α}, ¬ Extends sep a b → ¬ Extends sep (p ++ a) (p ++ b) := by
    rintro a b hn ⟨s, hs, hh⟩
    rw [List.append_assoc] at hs
    exact hn ⟨s, List.append_cancel_left hs, hh⟩
  exact ⟨hnot h.1, hnot h.2⟩

end Apart

/-! ## Reading words back -/

/-- Words without separators, each after one, can be read back from the text. -/
theorem flatMap_sep_injective : ∀ {ws vs : List (List α)}, (∀ w ∈ ws, sep ∉ w) → (∀ v ∈ vs, sep ∉ v) →
    ws.flatMap (sep :: ·) = vs.flatMap (sep :: ·) → ws = vs
  | [], [], _, _, _ => rfl
  | [], _ :: _, _, _, h => by simp at h
  | _ :: _, [], _, _, h => by simp at h
  | w :: ws, v :: vs, hw, hv, h => by
    have hext : ∀ us : List (List α), ∀ x ∈ (us.flatMap (sep :: ·)).head?, x = sep := by
      intro us x hx
      cases us with
      | nil => simp at hx
      | cons u us => simpa using hx.symm
    simp only [List.flatMap_cons, List.cons_append, List.cons.injEq, true_and] at h
    have heq : w = v := by
      by_contra hne
      exact ((Apart.of_not_mem (hw w List.mem_cons_self) (hv v List.mem_cons_self) hne).extend
        ⟨_, rfl, hext ws⟩ ⟨_, rfl, hext vs⟩).ne h
    subst heq
    rw [List.append_cancel_left_eq] at h
    rw [flatMap_sep_injective (fun u hu => hw u (List.mem_cons_of_mem _ hu))
      (fun u hu => hv u (List.mem_cons_of_mem _ hu)) h]

/-- A stem that does not end in a letter of the rest can be told from the rest. -/
theorem append_injective_of_last {p : α → Prop} {a b s t : List α} (ha : ∃ x ∈ a.getLast?, ¬ p x)
    (hb : ∃ x ∈ b.getLast?, ¬ p x) (hs : ∀ x ∈ s, p x) (ht : ∀ x ∈ t, p x) (h : a ++ s = b ++ t) : a = b ∧ s = t := by
  have hnil : ∀ {a u v : List α}, (∃ x ∈ (a ++ u).getLast?, ¬ p x) → (∀ x ∈ u ++ v, p x) → u = [] := by
    rintro a u v ⟨x, hx, hp⟩ hu
    by_contra hne
    rw [List.getLast?_append_of_ne_nil _ hne] at hx
    exact hp (hu x (List.mem_append_left _ (List.mem_of_getLast? hx)))
  rcases List.append_eq_append_iff.mp h with ⟨u, rfl, rfl⟩ | ⟨u, rfl, rfl⟩
  · obtain rfl := hnil hb hs
    exact ⟨(List.append_nil a).symm, rfl⟩
  · obtain rfl := hnil ha ht
    exact ⟨List.append_nil b, rfl⟩

end DfDerive.Lib
