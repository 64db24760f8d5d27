/-
  DfDerive.Lib.Depth — answers that are made of other answers.

  `deep F bottom n i` is the answer of `i` when calls go `n` deep and what is below them
  answers `bottom`. Where the calls are well-founded the answers settle, each on what those it
  asks settle on (`Settles.step`).
-/

import Mathlib.Order.WellFounded

namespace DfDerive.Lib

variable {ι α : Type} (F : (ι → α) → ι → α)

def deep (bottom : α) : Nat → ι → α
  | 0, _ => bottom
  | n + 1, i => F (deep bottom n) i

/-- From some depth on the answer is `a`, whatever is at the bottom. -/
def Settles (i : ι) (a : α) : Prop := ∃ depth, ∀ bottom n, depth ≤ n → deep F bottom n i = a

/-- The answer at `i` is made of the answers that `i` asks for. -/
def AsksOnly (asks : ι → List ι) : Prop := ∀ (f g : ι → α) (i : ι), (∀ j ∈ asks i, f j = g j) → F f i = F g i

/-- Every chain of questions from `i` is finite. -/
def Founded (asks : ι → List ι) : ι → Prop := Acc fun j i => j ∈ asks i

variable {F} {asks : ι → List ι} {i : ι}

theorem Settles.unique {a b : α} (ha : Settles F i a) (hb : Settles F i b) : a = b := by
  obtain ⟨m, hm⟩ := ha
  obtain ⟨n, hn⟩ := hb
  rw [← hm a (max m n) (le_max_left m n), ← hn a (max m n) (le_max_right m n)]

/-- One depth at which a whole list has settled. -/
theorem Settles.all {f : ι → α} : ∀ {js : List ι}, (∀ j ∈ js, Settles F j (f j)) →
    ∃ depth, ∀ bottom n, depth ≤ n → ∀ j ∈ js, deep F bottom n j = f j
  | [], _ => ⟨0, fun _ _ _ => nofun⟩
  | j :: js, h => by
    obtain ⟨m, hm⟩ := h j List.mem_cons_self
    obtain ⟨k, hk⟩ := Settles.all fun j' hj' => h j' (List.mem_cons_of_mem _ hj')
    refine ⟨max m k, fun bottom n hn j' hj' => ?_⟩
    rcases List.mem_cons.mp hj' with rfl | hj'
    · exact hm bottom n (le_trans (le_max_left m k) hn)
    · exact hk bottom n (le_trans (le_max_right m k) hn) j' hj'

theorem Settles.step (hF : AsksOnly F asks) {f : ι → α} (h : ∀ j ∈ asks i, Settles F j (f j)) : Settles F i (F f i) := by
  obtain ⟨depth, hdepth⟩ := Settles.all h
  refine ⟨depth + 1, fun bottom n hn => ?_⟩
  obtain ⟨m, rfl⟩ := Nat.exists_eq_add_of_le' (Nat.one_le_of_lt hn)
  exact hF _ _ i (hdepth bottom m (Nat.le_of_succ_le_succ hn))

end DfDerive.Lib
