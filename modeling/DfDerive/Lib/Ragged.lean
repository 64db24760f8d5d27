/-
  DfDerive.Lib.Ragged — nested lists stored as flat buffers.

  A list column keeps its elements in one flat child column, an offsets buffer (`0`, then
  the end of every list in turn) and, when lists may be absent, one validity bit a list.
  `ListBuf.rows` reads such a column back; `ListBuf.push` appends one list. A buffer is
  well formed over a child of `n` elements (`ListBuf.WF`) when its offsets start at 0,
  never decrease and end at `n`, with one validity bit a list; pushing keeps that
  (`WF.push`), and what is read after a push is what was read before with the new list,
  or the new null, at its end (`rows_push_list`, `rows_push_null`).
-/

import Mathlib.Data.List.Basic
import Mathlib.Tactic.Common

namespace DfDerive.Lib

/-- The value of one cell of a nested column. -/
inductive Nested (β : Type) where
  | null
  | val (b : β)
  | list (l : List (Nested β))

variable {α β : Type}

/-- The lists an offsets buffer cuts a flat column into. -/
def lists : List Nat → List α → List (List α)
  | a :: b :: os, xs => (xs.drop a).take (b - a) :: lists (b :: os) xs
  | _, _ => []

theorem lists_length : ∀ (os : List Nat) (xs : List α), (lists os xs).length = os.length - 1
  | [], _ => rfl
  | [_], _ => rfl
  | a :: b :: os, xs => by
    have ih := lists_length (b :: os) xs
    simp only [lists, List.length_cons, ih]
    omega

theorem lists_snoc (os : List Nat) (m n : Nat) (xs : List α) :
    lists (os ++ [m, n]) xs = lists (os ++ [m]) xs ++ [(xs.drop m).take (n - m)] := by
  induction os with
  | nil => rfl
  | cons a os ih =>
    cases os with
    | nil => rfl
    | cons b os =>
      simp only [List.cons_append, lists, List.cons.injEq, true_and] at ih ⊢
      exact ih

/-- Elements past the last offset belong to no list yet. -/
theorem lists_append (os : List Nat) (xs ys : List α) (h : ∀ o ∈ os, o ≤ xs.length) :
    lists os (xs ++ ys) = lists os xs := by
  induction os with
  | nil => rfl
  | cons a os ih =>
    cases os with
    | nil => rfl
    | cons b os =>
      have ha := h a (by simp)
      have hb := h b (by simp)
      simp only [lists, List.cons.injEq]
      refine ⟨?_, ih fun o ho => h o (List.mem_cons_of_mem _ ho)⟩
      rw [List.drop_append_of_le_length ha, List.take_append_of_le_length]
      simp only [List.length_drop]
      omega

theorem lists_map {γ : Type} (f : α → γ) (os : List Nat) (xs : List α) :
    lists os (xs.map f) = (lists os xs).map (List.map f) := by
  induction os with
  | nil => rfl
  | cons a os ih =>
    cases os with
    | nil => rfl
    | cons b os => simp only [lists, List.map_cons, List.map_take, List.map_drop, ih]

/-! ## One layer of lists -/

/-- The offsets buffer of a list layer and its validity bits, when it has any. -/
structure ListBuf where
  offsets : List Nat
  validity : Option (List Bool)
  deriving DecidableEq, Repr

/-- The lists and nulls read back from a buffer over its child column. -/
def ListBuf.rows (b : ListBuf) (child : List (Nested β)) : List (Nested β) :=
  match b.validity with
  | some bits => List.zipWith (fun v l => if v then .list l else .null) bits (lists b.offsets child)
  | none => (lists b.offsets child).map .list

def ListBuf.empty (nullable : Bool) : ListBuf := ⟨[0], if nullable then some [] else none⟩

/-- Append one list ending at `n`. -/
def ListBuf.push (b : ListBuf) (valid : Bool) (n : Nat) : ListBuf :=
  ⟨b.offsets ++ [n], b.validity.map (· ++ [valid])⟩

/-- How many lists a buffer holds. -/
def ListBuf.count (b : ListBuf) : Nat := b.offsets.length - 1

@[simp] theorem ListBuf.push_offsets (b : ListBuf) (v : Bool) (n : Nat) : (b.push v n).offsets = b.offsets ++ [n] := rfl

@[simp] theorem ListBuf.push_validity (b : ListBuf) (v : Bool) (n : Nat) :
    (b.push v n).validity = b.validity.map (· ++ [v]) := rfl

/-- A buffer over a child column of `n` elements. -/
structure ListBuf.WF (b : ListBuf) (n : Nat) : Prop where
  first : b.offsets.head? = some 0
  sorted : b.offsets.Pairwise (· ≤ ·)
  last : b.offsets.getLast? = some n
  bits : ∀ bs, b.validity = some bs → bs.length + 1 = b.offsets.length

namespace ListBuf

theorem WF.empty (nullable : Bool) : (ListBuf.empty nullable).WF 0 := by
  refine ⟨rfl, by simp [ListBuf.empty], rfl, fun bs h => ?_⟩
  cases nullable <;> simp [ListBuf.empty] at h ⊢
  exact h ▸ rfl

theorem WF.le {b : ListBuf} {n : Nat} (h : b.WF n) : ∀ o ∈ b.offsets, o ≤ n := by
  obtain ⟨os, hos⟩ := List.getLast?_eq_some_iff.mp h.last
  intro o ho
  have hs := h.sorted
  rw [hos] at ho hs
  rw [List.pairwise_append] at hs
  rcases List.mem_append.mp ho with ho | ho
  · exact hs.2.2 o ho n (by simp)
  · simp at ho; omega

theorem WF.pos {b : ListBuf} {n : Nat} (h : b.WF n) : 0 < b.offsets.length := by
  have := h.first
  cases ho : b.offsets with
  | nil => simp [ho] at this
  | cons a l => simp

theorem WF.ne_nil {b : ListBuf} {n : Nat} (h : b.WF n) : b.offsets ≠ [] := List.ne_nil_of_length_pos h.pos

theorem WF.push {b : ListBuf} {n m : Nat} (h : b.WF n) (hm : n ≤ m) (v : Bool) : (b.push v m).WF m := by
  refine ⟨?_, ?_, by simp, ?_⟩
  · have := h.first
    cases ho : b.offsets with
    | nil => simp [ho] at this
    | cons a l => simpa [ho] using this
  · rw [push_offsets, List.pairwise_append]
    refine ⟨h.sorted, by simp, fun o ho p hp => ?_⟩
    have := h.le o ho
    simp at hp; omega
  · intro bs hbs
    simp only [push_validity, Option.map_eq_some_iff] at hbs
    obtain ⟨cs, hcs, rfl⟩ := hbs
    have := h.bits cs hcs
    simp only [List.length_append, push_offsets]
    simp only [List.length_cons, List.length_nil]
    omega

theorem rows_length {b : ListBuf} {n : Nat} (h : b.WF n) (child : List (Nested β)) :
    (b.rows child).length = b.count := by
  unfold rows
  split
  · rename_i bits hb
    have := h.bits bits hb
    simp only [List.length_zipWith, lists_length, count]
    omega
  · simp [lists_length, count]

theorem lists_push {b : ListBuf} {child : List α} (h : b.WF child.length) (new : List α) (v : Bool) :
    lists (b.push v (child.length + new.length)).offsets (child ++ new) = lists b.offsets child ++ [new] := by
  obtain ⟨os, hos⟩ := List.getLast?_eq_some_iff.mp h.last
  have hle := h.le
  rw [push_offsets, hos, List.append_assoc, List.singleton_append, lists_snoc]
  rw [hos] at hle
  rw [lists_append _ _ _ hle]
  simp

/-- A list pushed with its elements is read back at the end. -/
theorem rows_push_list {b : ListBuf} {child : List (Nested β)} (h : b.WF child.length) (new : List (Nested β)) :
    (b.push true (child.length + new.length)).rows (child ++ new) = b.rows child ++ [.list new] := by
  unfold rows
  cases hv : b.validity with
  | none => simp only [push_validity, hv, Option.map_none, lists_push h, List.map_append, List.map_cons, List.map_nil]
  | some bits =>
    have hlen : bits.length = (lists b.offsets child).length := by
      have := h.bits bits hv
      rw [lists_length]; omega
    simp only [push_validity, hv, Option.map_some, lists_push h]
    rw [List.zipWith_append hlen]
    rfl

/-- An absent list is pushed without elements and read back as null. -/
theorem rows_push_null {b : ListBuf} {child : List (Nested β)} (h : b.WF child.length) (hv : b.validity.isSome) :
    (b.push false child.length).rows child = b.rows child ++ [.null] := by
  obtain ⟨bits, hb⟩ := Option.isSome_iff_exists.mp hv
  have hlen : bits.length = (lists b.offsets child).length := by
    have := h.bits bits hb
    rw [lists_length]; omega
  have hpush := lists_push h [] false
  simp only [List.length_nil, Nat.add_zero, List.append_nil] at hpush
  simp only [rows, push_validity, hb, Option.map_some, hpush]
  rw [List.zipWith_append hlen]
  rfl

end ListBuf

end DfDerive.Lib
