/-
  DfDerive.Lib.Slot — a loop that fills a slot once.

  The items of a list are read one after another. The first reading fills the slot, a second
  one is a conflict, so the loop is decided by its first two items (`foldlM_fillSlot`) and
  succeeds only on a list of at most one (`foldlM_fillSlot_ok`). With a slot for each key the
  loop succeeds when every item is read and no key comes twice (`foldlM_fillKeyed_ok`). A loop
  fails at the first item that does (`foldlM_eq_error`).
-/

import DfDerive.Lib.Runs
import Mathlib.Data.List.Induction
import Mathlib.Logic.Function.Basic

namespace DfDerive.Lib

variable {ε α β : Type}

/-- One turn: read `a`, then fill the slot or report what it holds. -/
def fillSlot (read : α → Except ε β) (conflict : β → β → ε) (slot : Option β) (a : α) : Except ε (Option β) := do
  let incoming ← read a
  match slot with
  | none => .ok (some incoming)
  | some existing => .error (conflict existing incoming)

variable {read : α → Except ε β} {conflict : β → β → ε}

/-- Nothing is read past a conflict. -/
theorem foldlM_fillSlot_some (existing : β) (a : α) (l : List α) :
    (a :: l).foldlM (fillSlot read conflict) (some existing) = (do
      let incoming ← read a
      .error (conflict existing incoming)) := by
  rw [List.foldlM_cons, fillSlot]
  cases read a <;> rfl

theorem foldlM_fillSlot (l : List α) :
    l.foldlM (fillSlot read conflict) none =
      (match l with
      | [] => .ok none
      | [a] => do
        let b ← read a
        .ok (some b)
      | a :: a' :: _ => do
        let b ← read a
        let b' ← read a'
        .error (conflict b b')) := by
  cases l with
  | nil => rfl
  | cons a l =>
    rw [List.foldlM_cons, fillSlot]
    cases hread : read a with
    | error e =>
      cases l with
      | nil => simp only [hread]; rfl
      | cons a' l => simp only [hread]; rfl
    | ok b =>
      cases l with
      | nil => simp only [hread]; rfl
      | cons a' l =>
        simp only [hread, ok_bind]
        exact foldlM_fillSlot_some b a' l

theorem foldlM_fillSlot_ok {l : List α} {slot : Option β} :
    l.foldlM (fillSlot read conflict) none = .ok slot ↔
      (l = [] ∧ slot = none) ∨ ∃ a b, l = [a] ∧ read a = .ok b ∧ slot = some b := by
  rw [foldlM_fillSlot]
  match l with
  | [] =>
    constructor
    · intro h
      cases h
      exact Or.inl ⟨rfl, rfl⟩
    · rintro (⟨-, rfl⟩ | ⟨a, b, h, -, -⟩)
      · rfl
      · cases h
  | [a] =>
    rw [bind_eq_ok]
    constructor
    · rintro ⟨b, hb, h⟩
      cases h
      exact Or.inr ⟨a, b, rfl, hb, rfl⟩
    · rintro (⟨h, -⟩ | ⟨a', b, h, hb, rfl⟩)
      · cases h
      · cases h
        exact ⟨b, hb, rfl⟩
  | a :: a' :: l =>
    constructor
    · intro h
      obtain ⟨b, -, h⟩ := bind_eq_ok.mp h
      obtain ⟨b', -, h⟩ := bind_eq_ok.mp h
      cases h
    · rintro (⟨h, -⟩ | ⟨_, _, h, -, -⟩) <;> cases h

/-! ## A slot for each key -/

/-- A loop ends in an error at an item it comes to. -/
theorem foldlM_eq_error {σ : Type} {f : σ → α → Except ε σ} {e : ε} : ∀ {l : List α} {s : σ},
    l.foldlM f s = .error e ↔ ∃ before a after s', l = before ++ a :: after ∧ before.foldlM f s = .ok s' ∧ f s' a = .error e
  | [], s => by
    refine ⟨nofun, ?_⟩
    rintro ⟨before, a, after, s', h, -⟩
    cases before <;> cases h
  | a :: l, s => by
    rw [List.foldlM_cons, bind_eq_error]
    constructor
    · rintro (h | ⟨t, ht, h⟩)
      · exact ⟨[], a, l, s, rfl, rfl, h⟩
      · obtain ⟨before, b, after, s', rfl, hbefore, hb⟩ := foldlM_eq_error.mp h
        refine ⟨a :: before, b, after, s', rfl, ?_, hb⟩
        rw [List.foldlM_cons, ht, ok_bind, hbefore]
    · rintro ⟨before, b, after, s', h, hbefore, hb⟩
      cases before with
      | nil =>
        cases h
        cases hbefore
        exact Or.inl hb
      | cons a' before =>
        cases h
        rw [List.foldlM_cons] at hbefore
        obtain ⟨t, ht, hbefore⟩ := bind_eq_ok.mp hbefore
        exact Or.inr ⟨t, ht, foldlM_eq_error.mpr ⟨before, b, after, s', rfl, hbefore, hb⟩⟩

variable {κ : Type} [DecidableEq κ]

/-- One turn: read a key and its value, then fill the slot of the key or report the key. -/
def fillKeyed (read : α → Except ε (κ × β)) (conflict : κ → ε) (slots : κ → Option β) (a : α) :
    Except ε (κ → Option β) := do
  let (k, b) ← read a
  match slots k with
  | none => .ok (Function.update slots k (some b))
  | some _ => .error (conflict k)

variable {read : α → Except ε (κ × β)} {conflict : κ → ε} {slots : κ → Option β} {a : α}

theorem fillKeyed_ok {slots' : κ → Option β} : fillKeyed read conflict slots a = .ok slots' ↔
    ∃ k b, read a = .ok (k, b) ∧ slots k = none ∧ slots' = Function.update slots k (some b) := by
  rw [fillKeyed, bind_eq_ok]
  constructor
  · rintro ⟨⟨k, b⟩, hread, h⟩
    cases hk : slots k with
    | none =>
      simp only [hk] at h
      cases h
      exact ⟨k, b, hread, hk, rfl⟩
    | some _ =>
      simp only [hk] at h
      cases h
  · rintro ⟨k, b, hread, hk, rfl⟩
    refine ⟨(k, b), hread, ?_⟩
    simp only [hk]

theorem fillKeyed_error {e : ε} : fillKeyed read conflict slots a = .error e ↔
    read a = .error e ∨ ∃ k b first, read a = .ok (k, b) ∧ slots k = some first ∧ e = conflict k := by
  rw [fillKeyed, bind_eq_error]
  refine or_congr_right ⟨?_, ?_⟩
  · rintro ⟨⟨k, b⟩, hread, h⟩
    cases hk : slots k with
    | none =>
      simp only [hk] at h
      cases h
    | some first =>
      simp only [hk] at h
      cases h
      exact ⟨k, b, first, hread, hk, rfl⟩
  · rintro ⟨k, b, first, hread, hk, rfl⟩
    refine ⟨(k, b), hread, ?_⟩
    simp only [hk]

/-- Every item is read, no key twice, and the slots hold what is read. -/
theorem foldlM_fillKeyed_ok {l : List α} : ∀ {slots : κ → Option β},
    l.foldlM (fillKeyed read conflict) (fun _ => none) = .ok slots ↔
      ∃ entries : List (κ × β), List.Forall₂ (fun a entry => read a = .ok entry) l entries ∧
        (entries.map Prod.fst).Nodup ∧ ∀ k b, slots k = some b ↔ (k, b) ∈ entries := by
  induction l using List.reverseRecOn with
  | nil =>
    intro slots
    constructor
    · intro h
      cases h
      exact ⟨[], .nil, List.nodup_nil, fun _ _ => ⟨nofun, nofun⟩⟩
    · rintro ⟨entries, hentries, -, hslots⟩
      cases hentries
      refine congrArg Except.ok (funext fun k => (Option.eq_none_iff_forall_ne_some.mpr fun b hb => ?_).symm)
      cases (hslots k b).mp hb
  | append_singleton l a ih =>
    intro slots
    rw [List.foldlM_append, bind_eq_ok]
    have hlast : ∀ s : κ → Option β, [a].foldlM (fillKeyed read conflict) s = .ok slots ↔
        fillKeyed read conflict s a = .ok slots := by
      intro s
      rw [List.foldlM_cons, bind_eq_ok]
      exact ⟨fun ⟨_, h, hs⟩ => by cases hs; exact h, fun h => ⟨_, h, rfl⟩⟩
    simp only [hlast, fillKeyed_ok, ih]
    constructor
    · rintro ⟨s, ⟨entries, hentries, hnodup, hs⟩, k, b, hread, hk, rfl⟩
      have hnew : ∀ b', (k, b') ∉ entries := by
        intro b' hmem
        rw [(hs k b').mpr hmem] at hk
        cases hk
      refine ⟨entries ++ [(k, b)], List.rel_append hentries (.cons hread .nil), ?_, fun k' b' => ?_⟩
      · rw [List.map_append, List.nodup_append]
        refine ⟨hnodup, List.pairwise_singleton _ _, fun x hx y hy hxy => ?_⟩
        obtain ⟨⟨_, b'⟩, hmem, rfl⟩ := List.mem_map.mp hx
        rw [List.map_singleton, List.mem_singleton] at hy
        obtain rfl : _ = k := hxy.trans hy
        exact hnew b' hmem
      · rw [List.mem_append, List.mem_singleton]
        by_cases hkey : k' = k
        · subst hkey
          rw [Function.update_self, Option.some.injEq, Prod.mk.injEq, or_iff_right (hnew b'), and_iff_right rfl, eq_comm]
        · rw [Function.update_of_ne hkey, hs, or_iff_left]
          exact fun h => hkey (Prod.mk.inj h).1
    · rintro ⟨entries, hentries, hnodup, hslots⟩
      have hfirst := List.forall₂_take_append entries l [a] hentries.flip
      have hlast := List.forall₂_drop_append entries l [a] hentries.flip
      rw [← List.take_append_drop l.length entries] at hnodup hslots
      generalize entries.take l.length = first at hfirst hnodup hslots
      generalize entries.drop l.length = last at hlast hnodup hslots
      cases hlast with
      | cons hread hnil =>
        cases hnil
        rename_i entry
        obtain ⟨k, b⟩ := entry
        rw [List.map_append, List.nodup_append] at hnodup
        obtain ⟨hnodup, -, hnew⟩ := hnodup
        have hnew : ∀ b', (k, b') ∉ first := fun b' hmem =>
          hnew k (List.mem_map_of_mem hmem) k (List.mem_singleton_self k) rfl
        refine ⟨Function.update slots k none, ⟨first, hfirst.flip, hnodup, fun k' b' => ?_⟩, k, b, hread,
          Function.update_self _ _ _, ?_⟩
        · by_cases hkey : k' = k
          · subst hkey
            rw [Function.update_self]
            exact ⟨nofun, fun h => absurd h (hnew b')⟩
          · rw [Function.update_of_ne hkey, hslots, List.mem_append, List.mem_singleton, or_iff_left]
            exact fun h => hkey (Prod.mk.inj h).1
        · rw [Function.update_idem]
          refine (Function.update_eq_self_iff.mpr ?_).symm
          exact ((hslots k b).mpr (List.mem_append_right _ (List.mem_singleton_self _))).symm

end DfDerive.Lib
