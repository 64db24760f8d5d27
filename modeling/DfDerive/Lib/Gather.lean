/-
  DfDerive.Lib.Gather — optional elements stored compactly.

  A column of optional elements keeps its present elements in one compact list and, for
  every slot, the position of its element there (`positions`). A gather through these
  positions puts whatever was computed from the compact list back into its slots
  (`gather_map`), whichever slots are empty: with none empty it is the compact list itself
  (`gather_full`), with all empty only nulls (`gather_empty`).
-/

import Mathlib.Data.List.ReduceOption
import Mathlib.Tactic.Common

namespace DfDerive.Lib

variable {α β : Type}

/-- The position of every present element, counted from `n`. -/
def positionsFrom : Nat → List (Option α) → List (Option Nat)
  | _, [] => []
  | n, none :: xs => none :: positionsFrom n xs
  | n, some _ :: xs => some n :: positionsFrom (n + 1) xs

abbrev positions (xs : List (Option α)) : List (Option Nat) := positionsFrom 0 xs

/-- Read `ys` at every position, `d` where there is none. -/
def gather (ys : List β) (d : β) (idx : List (Option Nat)) : List β :=
  idx.map fun
    | some k => ys.getD k d
    | none => d

theorem map_reduceOption (f : α → Option β) (xs : List α) : (xs.map f).reduceOption = xs.filterMap f := by
  rw [List.reduceOption, List.filterMap_map]
  rfl

theorem positionsFrom_append (n : Nat) (xs ys : List (Option α)) :
    positionsFrom n (xs ++ ys) = positionsFrom n xs ++ positionsFrom (n + xs.reduceOption.length) ys := by
  induction xs generalizing n with
  | nil => simp [positionsFrom]
  | cons x xs ih =>
    cases x with
    | none => simp [positionsFrom, ih]
    | some a =>
      simp only [List.cons_append, positionsFrom, ih, List.reduceOption_cons_of_some, List.length_cons]
      rw [show n + 1 + xs.reduceOption.length = n + (xs.reduceOption.length + 1) from by omega]

theorem positions_snoc_some (xs : List (Option α)) (a : α) :
    positions (xs ++ [some a]) = positions xs ++ [some xs.reduceOption.length] := by
  have h := positionsFrom_append 0 xs [some a]
  rwa [Nat.zero_add] at h

theorem positions_snoc_none (xs : List (Option α)) : positions (xs ++ [none]) = positions xs ++ [none] :=
  positionsFrom_append 0 xs [none]

@[simp] theorem positionsFrom_length (n : Nat) (xs : List (Option α)) : (positionsFrom n xs).length = xs.length := by
  induction xs generalizing n with
  | nil => rfl
  | cons x xs ih => cases x <;> simp [positionsFrom, ih]

/-- Slot `i` holds the element its position leads to. -/
theorem positionsFrom_get {n : Nat} {xs : List (Option α)} {i k : Nat} (h : (positionsFrom n xs)[i]? = some (some k)) :
    n ≤ k ∧ ∃ a, xs[i]? = some (some a) ∧ xs.reduceOption[k - n]? = some a := by
  induction xs generalizing n i with
  | nil => simp [positionsFrom] at h
  | cons x xs ih =>
    cases i with
    | zero =>
      cases x with
      | none => simp [positionsFrom] at h
      | some a =>
        simp only [positionsFrom, List.getElem?_cons_zero, Option.some.injEq] at h
        subst h
        exact ⟨Nat.le_refl _, a, by simp, by simp⟩
    | succ i =>
      cases x with
      | none =>
        obtain ⟨hle, a, h1, h2⟩ := ih (n := n) (by simpa [positionsFrom] using h)
        exact ⟨hle, a, by simpa using h1, by simpa using h2⟩
      | some b =>
        obtain ⟨hle, a, h1, h2⟩ := ih (n := n + 1) (by simpa [positionsFrom] using h)
        refine ⟨by omega, a, by simpa using h1, ?_⟩
        rw [show k - n = (k - (n + 1)) + 1 from by omega]
        simpa using h2

/-- An empty slot has no position. -/
theorem positionsFrom_none {n : Nat} {xs : List (Option α)} {i : Nat} :
    (positionsFrom n xs)[i]? = some none ↔ xs[i]? = some none := by
  induction xs generalizing n i with
  | nil => simp [positionsFrom]
  | cons x xs ih =>
    cases i with
    | zero => cases x <;> simp [positionsFrom]
    | succ i => cases x <;> simpa [positionsFrom] using ih

/-- Every position is one of the compact list. -/
theorem positions_lt {xs : List (Option α)} {k : Nat} (h : some k ∈ positions xs) : k < xs.reduceOption.length := by
  obtain ⟨i, hi⟩ := List.mem_iff_getElem?.mp h
  obtain ⟨-, a, -, ha⟩ := positionsFrom_get hi
  exact (List.getElem?_eq_some_iff.mp ha).1

@[simp] theorem gather_length (ys : List β) (d : β) (idx : List (Option Nat)) : (gather ys d idx).length = idx.length :=
  List.length_map _

theorem gather_shift (y : β) (ys : List β) (d : β) (n : Nat) (xs : List (Option α)) :
    gather (y :: ys) d (positionsFrom (n + 1) xs) = gather ys d (positionsFrom n xs) := by
  induction xs generalizing n with
  | nil => rfl
  | cons x xs ih =>
    cases x with
    | none => exact congrArg (d :: ·) (ih n)
    | some a => exact congrArg (ys.getD n d :: ·) (ih (n + 1))

/-- What was computed from the present elements is back in their slots. -/
theorem gather_map (f : α → β) (d : β) (xs : List (Option α)) :
    gather (xs.reduceOption.map f) d (positions xs) = xs.map fun x => x.elim d f := by
  induction xs with
  | nil => rfl
  | cons x xs ih =>
    cases x with
    | none => exact congrArg (d :: ·) ih
    | some a =>
      rw [List.reduceOption_cons_of_some, List.map_cons, List.map_cons, ← ih]
      exact congrArg (f a :: ·) (gather_shift (f a) _ d 0 xs)

/-- With every slot filled the gather is the compact list. -/
theorem gather_full {ys : List β} {d : β} {xs : List (Option α)} (h : xs.reduceOption.length = xs.length)
    (hy : ys.length = xs.length) : gather ys d (positions xs) = ys := by
  induction xs generalizing ys with
  | nil => simp only [List.length_nil, List.length_eq_zero_iff] at hy; subst hy; rfl
  | cons x xs ih =>
    cases x with
    | none =>
      have := List.reduceOption_length_le xs
      rw [List.reduceOption_cons_of_none, List.length_cons] at h
      omega
    | some a =>
      cases ys with
      | nil => simp at hy
      | cons y ys =>
        simp only [List.reduceOption_cons_of_some, List.length_cons, Nat.add_right_cancel_iff] at h hy
        exact congrArg (y :: ·) ((gather_shift y ys d 0 xs).trans (ih h hy))

/-- With every slot empty the gather is all nulls. -/
theorem gather_empty (ys : List β) (d : β) {xs : List (Option α)} (h : xs.reduceOption = []) :
    gather ys d (positions xs) = List.replicate xs.length d := by
  induction xs with
  | nil => rfl
  | cons x xs ih =>
    cases x with
    | none => exact congrArg (d :: ·) (ih h)
    | some a => rw [List.reduceOption_cons_of_some] at h; cases h

end DfDerive.Lib
