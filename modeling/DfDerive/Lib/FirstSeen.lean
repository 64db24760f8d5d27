/-
  DfDerive.Lib.FirstSeen — lists that take each value once.

  A value is pushed unless it is there already. What comes out of a run is the list of the
  values pushed, each at its first place (`foldl_pushNew`), and leaving values out before or
  after the run is the same (`filter_eraseDups`).
-/

import Mathlib.Data.List.Nodup

namespace DfDerive

namespace Lib

variable {α β : Type} [DecidableEq α]

def pushNew (out : List α) (x : α) : List α := if x ∈ out then out else out ++ [x]

theorem foldl_pushNew_from : ∀ (xs out : List α),
    xs.foldl pushNew out = out ++ (xs.filter (· ∉ out)).eraseDups
  | [], out => by simp
  | x :: xs, out => by
    rw [List.foldl_cons, foldl_pushNew_from xs]
    by_cases hx : x ∈ out
    · rw [pushNew, if_pos hx, List.filter_cons_of_neg (by simp [hx])]
    · rw [pushNew, if_neg hx, List.filter_cons_of_pos (by simp [hx]), List.eraseDups_cons, List.filter_filter,
        List.append_assoc, List.singleton_append]
      have hfilter : (fun y => decide (y ∉ out ++ [x])) = fun y => !y == x && decide (y ∉ out) := by
        funext y
        by_cases hy : y = x <;> simp [hy]
      rw [hfilter]

/-- The values pushed on an empty list, each at its first place. -/
theorem foldl_pushNew (xs : List α) : xs.foldl pushNew [] = xs.eraseDups := by
  rw [foldl_pushNew_from, List.nil_append]
  simp

theorem nodup_eraseDups : ∀ xs : List α, xs.eraseDups.Nodup
  | [] => List.nodup_nil
  | x :: xs => by
    rw [List.eraseDups_cons, List.nodup_cons, List.mem_eraseDups, List.mem_filter]
    refine ⟨by simp, ?_⟩
    have hlt : (xs.filter fun b => !b == x).length < xs.length + 1 := Nat.lt_succ_of_le (List.length_filter_le _ _)
    exact nodup_eraseDups _
termination_by xs => xs.length

theorem filter_eraseDups (p : α → Bool) : ∀ xs : List α, xs.eraseDups.filter p = (xs.filter p).eraseDups
  | [] => by simp
  | x :: xs => by
    have hlt : (xs.filter fun b => !b == x).length < xs.length + 1 := Nat.lt_succ_of_le (List.length_filter_le _ _)
    rw [List.eraseDups_cons]
    by_cases hx : p x = true
    · rw [List.filter_cons_of_pos hx, List.filter_cons_of_pos hx, filter_eraseDups p, List.eraseDups_cons, List.filter_filter,
        List.filter_filter]
      simp only [Bool.and_comm]
    · rw [List.filter_cons_of_neg hx, List.filter_cons_of_neg hx, filter_eraseDups p, List.filter_filter]
      -- what is left out with `x` has no `x` to leave out
      congr 1
      refine List.filter_congr fun y _ => ?_
      by_cases hy : y = x
      · subst hy
        simp [hx]
      · simp [hy]
termination_by xs => xs.length

/-- One push for each element that has a value. -/
theorem foldl_pick (pick : β → Option α) : ∀ (xs : List β) (out : List α),
    xs.foldl (fun out x => (pick x).elim out (pushNew out)) out = (xs.filterMap pick).foldl pushNew out
  | [], _ => rfl
  | x :: xs, out => by
    rw [List.foldl_cons, foldl_pick pick xs]
    cases hx : pick x with
    | none => rw [List.filterMap_cons_none hx, Option.elim_none]
    | some a => rw [List.filterMap_cons_some hx, List.foldl_cons, Option.elim_some]

end Lib

end DfDerive
