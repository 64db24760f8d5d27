/-
  DfDerive.Spec.Cells — what a column says about a value.

  A wrapper word is read outer to inner. `HasWord` is the typing of a value by a word,
  `cellOf` the cell the value becomes: pointers are transparent, an absent value is null
  whatever its depth in a stack of `Option`s, a `Vec` is a list. `leavesOf` are the leaves
  present below a value, and `FitsWord` bounds the number of list elements a column of
  values has at every `Vec` of the word. This is the reference the generated pipelines are
  compared with; nothing here looks at normalized shapes.
-/

import DfDerive.Ir.Wrappers
import DfDerive.Runtime.Value
import Mathlib.Data.List.Flatten
import Mathlib.Data.List.ReduceOption

namespace DfDerive

open Lib

/-- `v` is a value of the word `w` over leaves satisfying `P`. -/
def HasWord (P : Value → Prop) : List RawWrapper → Value → Prop
  | [], v => P v
  | .option :: _, .none => True
  | .option :: w, .some v => HasWord P w v
  | .smartPtr :: w, .ptr v => HasWord P w v
  | .vec :: w, .vec vs => ∀ v ∈ vs, HasWord P w v
  | _, _ => False

/-- The cell of a value of the word `w`. -/
def cellOf (leaf : Value → Cell) : List RawWrapper → Value → Cell
  | [], v => leaf v
  | .option :: w, .some v => cellOf leaf w v
  | .smartPtr :: w, .ptr v => cellOf leaf w v
  | .vec :: w, .vec vs => .list (vs.map (cellOf leaf w))
  | _, _ => .null

/-- The values one wrapper below a value. -/
def below : RawWrapper → Value → List Value
  | .option, .some v => [v]
  | .smartPtr, .ptr v => [v]
  | .vec, .vec vs => vs
  | _, _ => []

/-- The leaves present in a value of the word `w`, in order. -/
def leavesOf : List RawWrapper → Value → List Value
  | [], v => [v]
  | s :: w, v => (below s v).flatMap (leavesOf w)

/-- At every `Vec` of the word the lists of the column have at most `max` elements
    together, and `F` holds of its leaves. -/
def FitsWord (max : Nat) (F : List Value → Prop) : List RawWrapper → List Value → Prop
  | [], vs => F vs
  | s :: w, vs => (s = .vec → (vs.flatMap (below s)).length ≤ max) ∧ FitsWord max F w (vs.flatMap (below s))

/-- Follow an access chain; `none` when an `Option` on it is absent. -/
def chainFold : List AccessStep → Value → Option Value
  | [], v => some v
  | .option :: c, .some v => chainFold c v
  | .smartPtr :: c, .ptr v => chainFold c v
  | _, _ => none

@[simp] theorem leavesOf_some (w : List RawWrapper) (v : Value) : leavesOf (.option :: w) (.some v) = leavesOf w v := by
  simp [leavesOf, below]
@[simp] theorem leavesOf_ptr (w : List RawWrapper) (v : Value) : leavesOf (.smartPtr :: w) (.ptr v) = leavesOf w v := by
  simp [leavesOf, below]
@[simp] theorem leavesOf_vec (w : List RawWrapper) (vs : List Value) :
    leavesOf (.vec :: w) (.vec vs) = vs.flatMap (leavesOf w) := rfl

/-! ## Words in two parts -/

theorem hasWord_cons {P : Value → Prop} {s : RawWrapper} {w : List RawWrapper} {v : Value} (h : HasWord P (s :: w) v) :
    ∀ u ∈ below s v, HasWord P w u := by
  intro u hu
  cases s <;> cases v <;> simp only [below, List.mem_singleton, List.not_mem_nil] at hu
  · exact hu ▸ h
  · exact h u hu
  · exact hu ▸ h

theorem HasWord.mono {P Q : Value → Prop} (h : ∀ v, P v → Q v) : ∀ {w : List RawWrapper} {v : Value},
    HasWord P w v → HasWord Q w v
  | [], _, hv => h _ hv
  | .option :: _, .none, _ => trivial
  | .option :: w, .some v, hv => HasWord.mono h (w := w) (v := v) hv
  | .smartPtr :: w, .ptr v, hv => HasWord.mono h (w := w) (v := v) hv
  | .vec :: w, .vec _, hv => fun u hu => HasWord.mono h (w := w) (v := u) (hv u hu)

theorem hasWord_append {P : Value → Prop} : ∀ {w w' : List RawWrapper} {v : Value},
    HasWord P (w ++ w') v ↔ HasWord (HasWord P w') w v
  | [], _, _ => Iff.rfl
  | .option :: w, w', v => by
    cases v <;> simp only [List.cons_append, HasWord]
    exact hasWord_append
  | .smartPtr :: w, w', v => by
    cases v <;> simp only [List.cons_append, HasWord]
    exact hasWord_append
  | .vec :: w, w', v => by
    cases v <;> simp only [List.cons_append, HasWord]
    exact forall₂_congr fun u _ => hasWord_append

theorem cellOf_append (leaf : Value → Cell) : ∀ (w w' : List RawWrapper) (v : Value),
    cellOf leaf (w ++ w') v = cellOf (cellOf leaf w') w v
  | [], _, _ => rfl
  | .option :: w, w', v => by cases v <;> simp [cellOf, cellOf_append leaf w w']
  | .smartPtr :: w, w', v => by cases v <;> simp [cellOf, cellOf_append leaf w w']
  | .vec :: w, w', v => by cases v <;> simp [cellOf, cellOf_append leaf w w']

theorem leavesOf_append : ∀ (w w' : List RawWrapper) (v : Value),
    leavesOf (w ++ w') v = (leavesOf w v).flatMap (leavesOf w')
  | [], _, _ => by simp [leavesOf]
  | s :: w, w', v => by
    simp only [List.cons_append, leavesOf, List.flatMap_assoc]
    exact congrArg (List.flatMap · (below s v)) (funext fun x => leavesOf_append w w' x)

theorem fitsWord_append {max : Nat} {F : List Value → Prop} : ∀ {w u : List RawWrapper} {vs : List Value},
    FitsWord max F (w ++ u) vs ↔ FitsWord max (FitsWord max F u) w vs
  | [], _, _ => Iff.rfl
  | _ :: w, u, _ => and_congr_right fun _ => fitsWord_append (w := w) (u := u)

theorem FitsWord.mono {max : Nat} {F G : List Value → Prop} (h : ∀ vs, F vs → G vs) : ∀ {w : List RawWrapper}
    {vs : List Value}, FitsWord max F w vs → FitsWord max G w vs
  | [], _, hv => h _ hv
  | _ :: w, _, hv => ⟨hv.1, FitsWord.mono h (w := w) hv.2⟩

/-- The sizes of the lists and the condition on the leaves, apart. -/
theorem fitsWord_iff {max : Nat} {F : List Value → Prop} : ∀ {w : List RawWrapper} {vs : List Value},
    FitsWord max F w vs ↔ FitsWord max (fun _ => True) w vs ∧ F (vs.flatMap (leavesOf w))
  | [], vs => by
    have : vs.flatMap (leavesOf []) = vs := by simp [leavesOf]
    simp only [FitsWord, this, true_and]
  | s :: w, vs => by
    have : (vs.flatMap (below s)).flatMap (leavesOf w) = vs.flatMap (leavesOf (s :: w)) := List.flatMap_assoc
    rw [FitsWord, FitsWord, fitsWord_iff (w := w), this]
    exact and_assoc.symm

theorem FitsWord.nil {max : Nat} {F : List Value → Prop} (h : F []) : ∀ w : List RawWrapper, FitsWord max F w []
  | [] => h
  | _ :: w => ⟨fun _ => Nat.zero_le _, FitsWord.nil h w⟩

/-- A condition that passes to sublists does so at every word. -/
theorem FitsWord.sublist {max : Nat} {F : List Value → Prop} (h : ∀ us vs, us.Sublist vs → F vs → F us) :
    ∀ {w : List RawWrapper} {us vs : List Value}, us.Sublist vs → FitsWord max F w vs → FitsWord max F w us
  | [], _, _, hs, hv => h _ _ hs hv
  | s :: w, us, vs, hs, hv => by
    have hb : (us.flatMap (below s)).Sublist (vs.flatMap (below s)) := hs.flatMap _
    exact ⟨fun hvec => Nat.le_trans hb.length_le (hv.1 hvec), FitsWord.sublist h hb hv.2⟩

/-- Leaves of a typed value are typed. -/
theorem HasWord.leaves {P : Value → Prop} : ∀ {w : List RawWrapper} {v : Value}, HasWord P w v → ∀ u ∈ leavesOf w v, P u
  | [], v, h, u, hu => by simp only [leavesOf, List.mem_singleton] at hu; exact hu ▸ h
  | s :: w, v, h, u, hu => by
    obtain ⟨x, hx, hu⟩ := List.mem_flatMap.mp hu
    exact HasWord.leaves (hasWord_cons h x hx) u hu

/-- The cell of a value depends only on the cells of its leaves. -/
theorem cellOf_congr {f g : Value → Cell} : ∀ {w : List RawWrapper} {v : Value},
    (∀ u ∈ leavesOf w v, f u = g u) → cellOf f w v = cellOf g w v
  | [], v, h => h v (by simp [leavesOf])
  | .option :: w, v, h => by
    cases v <;> simp only [cellOf, leavesOf, below, List.flatMap_cons, List.flatMap_nil, List.append_nil] at h ⊢
    exact cellOf_congr h
  | .smartPtr :: w, v, h => by
    cases v <;> simp only [cellOf, leavesOf, below, List.flatMap_cons, List.flatMap_nil, List.append_nil] at h ⊢
    exact cellOf_congr h
  | .vec :: w, v, h => by
    cases v <;> simp only [cellOf, leavesOf, below] at h ⊢
    congr 1
    exact List.map_congr_left fun x hx => cellOf_congr fun u hu => h u (List.mem_flatMap.mpr ⟨x, hx, hu⟩)

/-! ## Access chains -/

/-- The leaf of a chain, if it is there. -/
theorem leavesOf_chain : ∀ (steps : List AccessStep) (v : Value),
    leavesOf (AccessChain.word ⟨steps⟩) v = (chainFold steps v).toList
  | [], v => rfl
  | .option :: steps, v => by
    cases v with
    | some u => exact (leavesOf_some _ _).trans (leavesOf_chain steps u)
    | none => rfl
    | ptr _ => rfl
    | scalar _ => rfl
    | vec _ => rfl
    | tuple _ => rfl
    | struct _ => rfl
  | .smartPtr :: steps, v => by
    cases v with
    | ptr u => exact (leavesOf_ptr _ _).trans (leavesOf_chain steps u)
    | none => rfl
    | some _ => rfl
    | scalar _ => rfl
    | vec _ => rfl
    | tuple _ => rfl
    | struct _ => rfl

/-- The leaves of chains are the values they lead to. -/
theorem leavesOf_chains (steps : List AccessStep) (vs : List Value) :
    vs.flatMap (leavesOf (AccessChain.word ⟨steps⟩)) = (vs.map (chainFold steps)).reduceOption := by
  induction vs with
  | nil => rfl
  | cons v vs ih =>
    rw [List.flatMap_cons, List.map_cons, ih, leavesOf_chain]
    cases chainFold steps v <;> rfl

/-- A chain leads to at most one value, and to none only past an absent `Option`. -/
theorem HasWord.chain {P : Value → Prop} (steps : List AccessStep) : ∀ {v : Value},
    HasWord P (AccessChain.word ⟨steps⟩) v →
      (∃ u, chainFold steps v = some u ∧ P u ∧ leavesOf (AccessChain.word ⟨steps⟩) v = [u] ∧
        ∀ leaf, cellOf leaf (AccessChain.word ⟨steps⟩) v = leaf u) ∨
      (chainFold steps v = none ∧ .option ∈ steps ∧ leavesOf (AccessChain.word ⟨steps⟩) v = [] ∧
        ∀ leaf, cellOf leaf (AccessChain.word ⟨steps⟩) v = .null) := by
  induction steps with
  | nil => intro v h; exact Or.inl ⟨v, rfl, h, rfl, fun _ => rfl⟩
  | cons st steps ih =>
    intro v h
    cases st with
    | option =>
      cases v with
      | none => exact Or.inr ⟨rfl, by simp, rfl, fun _ => rfl⟩
      | some u =>
        rcases ih (v := u) h with ⟨x, h1, h2, h3, h4⟩ | ⟨h1, h2, h3, h4⟩
        · exact Or.inl ⟨x, h1, h2, (leavesOf_some _ _).trans h3, h4⟩
        · exact Or.inr ⟨h1, by simp, (leavesOf_some _ _).trans h3, h4⟩
      | scalar _ => exact h.elim
      | ptr _ => exact h.elim
      | vec _ => exact h.elim
      | tuple _ => exact h.elim
      | struct _ => exact h.elim
    | smartPtr =>
      cases v with
      | ptr u =>
        rcases ih (v := u) h with ⟨x, h1, h2, h3, h4⟩ | ⟨h1, h2, h3, h4⟩
        · exact Or.inl ⟨x, h1, h2, (leavesOf_ptr _ _).trans h3, h4⟩
        · exact Or.inr ⟨h1, by simp [h2], (leavesOf_ptr _ _).trans h3, h4⟩
      | none => exact h.elim
      | some _ => exact h.elim
      | scalar _ => exact h.elim
      | vec _ => exact h.elim
      | tuple _ => exact h.elim
      | struct _ => exact h.elim

end DfDerive
