/-
  DfDerive.Lib.Scopes — code by the names it binds and reads.

  A name may be bound once in a scope and bound again, on purpose, inside it. `Code` keeps
  of a program its declarations, its inner scopes and its reads, each read with the binder
  it is meant for. `CaptureFree` resolves the reads by the text of the names, innermost
  binder first. `Clean` checks the same against a table of what every name stands for, and
  is what proofs work with (`Clean.captureFree`).
-/

import Mathlib.Logic.Function.Basic
import Mathlib.Tactic.Common

namespace DfDerive.Lib

/-- The binder of a name: its first one in a scope, or the one that binds it again. -/
inductive Binder (ι : Type) where
  | own (i : ι)
  | again (i : ι)
  deriving DecidableEq, Repr

def Binder.ident {ι : Type} : Binder ι → ι
  | own i => i
  | again i => i

/-- A declaration is in scope in the rest of the code, and nowhere outside it. -/
inductive Code (ι : Type) where
  | done
  | read (b : Binder ι) (rest : Code ι)
  | bind (b : Binder ι) (rest : Code ι)
  | scope (body rest : Code ι)

namespace Code

variable {ι : Type}

def append : Code ι → Code ι → Code ι
  | done, d => d
  | read b c, d => read b (c.append d)
  | bind b c, d => bind b (c.append d)
  | scope body c, d => scope body (c.append d)

instance : Append (Code ι) := ⟨append⟩

@[simp] theorem done_append (d : Code ι) : done ++ d = d := rfl
@[simp] theorem read_append (b : Binder ι) (c d : Code ι) : read b c ++ d = read b (c ++ d) := rfl
@[simp] theorem bind_append (b : Binder ι) (c d : Code ι) : bind b c ++ d = bind b (c ++ d) := rfl
@[simp] theorem scope_append (body c d : Code ι) : scope body c ++ d = scope body (c ++ d) := rfl

@[simp] theorem append_done : ∀ c : Code ι, c ++ done = c
  | done => rfl
  | read b c => congrArg (read b) (append_done c)
  | bind b c => congrArg (bind b) (append_done c)
  | scope body c => congrArg (scope body) (append_done c)

theorem append_assoc : ∀ c d e : Code ι, c ++ d ++ e = c ++ (d ++ e)
  | done, _, _ => rfl
  | read b c, d, e => congrArg (read b) (append_assoc c d e)
  | bind b c, d, e => congrArg (bind b) (append_assoc c d e)
  | scope body c, d, e => congrArg (scope body) (append_assoc c d e)

/-- The codes one after another. -/
def seq : List (Code ι) → Code ι
  | [] => done
  | c :: cs => c ++ seq cs

end Code

/-! ## Resolution -/

section Resolution

variable {ι ν : Type} [DecidableEq ν]

/-- The innermost binder of a name. -/
def lookup (text : ι → ν) (Γ : List (Binder ι)) (name : ν) : Option (Binder ι) := Γ.find? fun b => text b.ident = name

/-- Every read finds the binder it is meant for, and no binder is in scope twice. The
    scope lists the binders from the innermost one outwards. -/
def CaptureFree (text : ι → ν) : List (Binder ι) → Code ι → Prop
  | _, .done => True
  | Γ, .read b rest => lookup text Γ (text b.ident) = some b ∧ CaptureFree text Γ rest
  | Γ, .bind b rest => b ∉ Γ ∧ CaptureFree text (b :: Γ) rest
  | Γ, .scope body rest => CaptureFree text Γ body ∧ CaptureFree text Γ rest

instance CaptureFree.decidable [DecidableEq ι] (text : ι → ν) : ∀ Γ c, Decidable (CaptureFree text Γ c)
  | _, .done => isTrue trivial
  | Γ, .read b rest =>
    have := decidable text Γ rest
    inferInstanceAs (Decidable (lookup text Γ (text b.ident) = some b ∧ CaptureFree text Γ rest))
  | Γ, .bind b rest =>
    have := decidable text (b :: Γ) rest
    inferInstanceAs (Decidable (b ∉ Γ ∧ CaptureFree text (b :: Γ) rest))
  | Γ, .scope body rest =>
    have := decidable text Γ body
    have := decidable text Γ rest
    inferInstanceAs (Decidable (CaptureFree text Γ body ∧ CaptureFree text Γ rest))

/-- A name bound again hides its first binder until its scope ends. -/
example : CaptureFree (id : Nat → Nat) [] (.bind (.own 0) (.scope (.bind (.again 0) (.read (.again 0) .done)) (.read (.own 0) .done))) ∧
    ¬ CaptureFree (id : Nat → Nat) [] (.bind (.own 0) (.scope (.bind (.again 0) (.read (.own 0) .done)) .done)) := by decide

end Resolution

/-! ## Tables of names -/

/-- What a name stands for: nothing, its first binder, or the one that bound it again. -/
inductive Status where
  | free
  | bound
  | rebound
  deriving DecidableEq, Repr

abbrev Names (ι : Type) : Type := ι → Status

variable {ι : Type}

namespace Binder

/-- What the binder makes of its name. -/
def status : Binder ι → Status
  | own _ => .bound
  | again _ => .rebound

/-- What the name stands for where the binder is met. -/
def before : Binder ι → Status
  | own _ => .free
  | again _ => .bound

@[simp] theorem status_own (i : ι) : (own i).status = .bound := rfl
@[simp] theorem status_again (i : ι) : (again i).status = .rebound := rfl
@[simp] theorem before_own (i : ι) : (own i).before = .free := rfl
@[simp] theorem before_again (i : ι) : (again i).before = .bound := rfl
@[simp] theorem ident_own (i : ι) : (own i).ident = i := rfl
@[simp] theorem ident_again (i : ι) : (again i).ident = i := rfl

end Binder

/-- The binder a status is about. -/
def Status.binder (i : ι) : Status → Option (Binder ι)
  | free => none
  | bound => some (.own i)
  | rebound => some (.again i)

variable [DecidableEq ι]

/-- The table with the given names bound. -/
def Names.bindAll (S : Names ι) (names : List ι) : Names ι := fun i => if i ∈ names then .bound else S i

namespace Names

variable {S : Names ι} {names : List ι} {i : ι}

theorem bindAll_nil (S : Names ι) : S.bindAll [] = S := funext fun _ => if_neg List.not_mem_nil

theorem bindAll_mem (h : i ∈ names) : S.bindAll names i = .bound := if_pos h

theorem bindAll_of_not_mem (h : i ∉ names) : S.bindAll names i = S i := if_neg h

theorem update_eq_bindAll (S : Names ι) (i : ι) : Function.update S i .bound = S.bindAll [i] := by
  funext j
  simp [bindAll, Function.update_apply]

theorem bindAll_append (S : Names ι) (names more : List ι) :
    (S.bindAll names).bindAll more = S.bindAll (names ++ more) := by
  funext i
  simp only [bindAll, List.mem_append]
  split <;> simp_all

end Names

namespace Code

/-- The table behind the code: its own declarations are made, those of inner scopes are gone. -/
def exit : Code ι → Names ι → Names ι
  | done, S => S
  | read _ rest, S => rest.exit S
  | bind b rest, S => rest.exit (Function.update S b.ident b.status)
  | scope _ rest, S => rest.exit S

def Clean : Code ι → Names ι → Prop
  | done, _ => True
  | read b rest, S => S b.ident = b.status ∧ rest.Clean S
  | bind b rest, S => S b.ident = b.before ∧ rest.Clean (Function.update S b.ident b.status)
  | scope body rest, S => body.Clean S ∧ rest.Clean S

@[simp] theorem exit_done (S : Names ι) : (done : Code ι).exit S = S := rfl
@[simp] theorem exit_read (b : Binder ι) (c : Code ι) (S : Names ι) : (read b c).exit S = c.exit S := rfl
@[simp] theorem exit_bind (b : Binder ι) (c : Code ι) (S : Names ι) :
    (bind b c).exit S = c.exit (Function.update S b.ident b.status) := rfl
@[simp] theorem exit_scope (body c : Code ι) (S : Names ι) : (scope body c).exit S = c.exit S := rfl

@[simp] theorem clean_done (S : Names ι) : (done : Code ι).Clean S := trivial
@[simp] theorem clean_read {b : Binder ι} {c : Code ι} {S : Names ι} :
    (read b c).Clean S ↔ S b.ident = b.status ∧ c.Clean S := Iff.rfl
@[simp] theorem clean_bind {b : Binder ι} {c : Code ι} {S : Names ι} :
    (bind b c).Clean S ↔ S b.ident = b.before ∧ c.Clean (Function.update S b.ident b.status) := Iff.rfl
@[simp] theorem clean_scope {body c : Code ι} {S : Names ι} : (scope body c).Clean S ↔ body.Clean S ∧ c.Clean S := Iff.rfl

@[simp] theorem exit_append : ∀ (c d : Code ι) (S : Names ι), (c ++ d).exit S = d.exit (c.exit S)
  | done, _, _ => rfl
  | read _ c, d, S => exit_append c d S
  | bind _ c, d, _ => exit_append c d _
  | scope _ c, d, S => exit_append c d S

@[simp] theorem clean_append : ∀ {c d : Code ι} {S : Names ι}, (c ++ d).Clean S ↔ c.Clean S ∧ d.Clean (c.exit S)
  | done, _, _ => (iff_of_eq (true_and _)).symm
  | read _ c, _, _ => (and_congr_right fun _ => clean_append (c := c)).trans and_assoc.symm
  | bind _ c, _, _ => (and_congr_right fun _ => clean_append (c := c)).trans and_assoc.symm
  | scope _ c, _, _ => (and_congr_right fun _ => clean_append (c := c)).trans and_assoc.symm

/-- Code without declarations of its own, such as an expression. -/
abbrev Closed (c : Code ι) : Prop := ∀ S : Names ι, c.exit S = S

/-- Code whose own declarations are of the given names. -/
abbrev Declares (c : Code ι) (names : List ι) : Prop := ∀ S : Names ι, c.exit S = S.bindAll names

theorem Closed.declares {c : Code ι} (h : c.Closed) : c.Declares [] := fun S => (h S).trans (Names.bindAll_nil S).symm

theorem Declares.append {c d : Code ι} {names more : List ι} (hc : c.Declares names) (hd : d.Declares more) :
    (c ++ d).Declares (names ++ more) := fun S => by rw [exit_append, hc, hd, Names.bindAll_append]

/-! ### Lists of declarations -/

/-- The table behind a list of declarations: of the names `d 0`, `d 1`, .. those of the
    first `n` that are `on` are bound, the other ones and every other name are as before. -/
structure Declared (d : Nat → ι) (on : Nat → Prop) (n : Nat) (S T : Names ι) : Prop where
  bound : ∀ l < n, on l → T (d l) = .bound
  same : ∀ i, (∀ l < n, on l → i ≠ d l) → T i = S i

omit [DecidableEq ι] in
theorem Declared.refl (d : Nat → ι) (on : Nat → Prop) (S : Names ι) : Declared d on 0 S S :=
  ⟨fun _ hl => absurd hl (Nat.not_lt_zero _), fun _ _ => rfl⟩

theorem Declared.succ {d : Nat → ι} {on : Nat → Prop} {n : Nat} {S T U : Names ι} (h : Declared d on n S T)
    (hon : on n → U = Function.update T (d n) .bound) (hoff : ¬ on n → U = T) : Declared d on (n + 1) S U := by
  by_cases hn : on n
  · rw [hon hn]
    refine ⟨fun l hl hlon => ?_, fun i hi => ?_⟩
    · by_cases heq : d l = d n
      · rw [heq, Function.update_self]
      · rw [Function.update_of_ne heq]
        exact h.bound l (Nat.lt_of_le_of_ne (Nat.lt_succ_iff.mp hl) fun hln => heq (congrArg d hln)) hlon
    · rw [Function.update_of_ne (hi n (Nat.lt_succ_self n) hn)]
      exact h.same i fun l hl => hi l (Nat.lt_succ_of_lt hl)
  · rw [hoff hn]
    refine ⟨fun l hl hlon => ?_, fun i hi => h.same i fun l hl => hi l (Nat.lt_succ_of_lt hl)⟩
    exact h.bound l (Nat.lt_of_le_of_ne (Nat.lt_succ_iff.mp hl) fun hln => hn (hln ▸ hlon)) hlon

/-- An invariant `P` of the codes of a list, by their positions. -/
theorem clean_seq {P : Nat → Names ι → Prop} : ∀ (cs : List (Code ι)) {k : Nat} {S : Names ι}, P k S →
    (∀ i c T, cs[i]? = some c → P (k + i) T → c.Clean T ∧ P (k + i + 1) (c.exit T)) →
      (seq cs).Clean S ∧ P (k + cs.length) ((seq cs).exit S)
  | [], _, _, hS, _ => ⟨trivial, hS⟩
  | c :: cs, k, S, hS, h => by
    obtain ⟨hc, hnext⟩ := h 0 c S rfl hS
    obtain ⟨hcs, hend⟩ := clean_seq cs hnext fun i c T hi hT => by
      rw [Nat.add_zero, show k + 1 + i = k + (i + 1) by omega] at hT ⊢
      exact h (i + 1) c T hi hT
    refine ⟨clean_append.mpr ⟨hc, hcs⟩, ?_⟩
    rw [seq, exit_append, List.length_cons, show k + (cs.length + 1) = k + 0 + 1 + cs.length by omega]
    exact hend

omit [DecidableEq ι] in
/-- Where a list has no code, an empty one does. -/
theorem seq_filterMap {α : Type} (f : α → Option (Code ι)) (l : List α) :
    seq (l.filterMap f) = seq (l.map fun a => (f a).getD done) := by
  induction l with
  | nil => rfl
  | cons a l ih => cases h : f a <;> simp [seq, h, ih]

/-- A list of codes that each declare a name of their own, or none. -/
theorem clean_declarations {d : Nat → ι} (hd : Function.Injective d) (on : Nat → Prop) {S : Names ι}
    (hfree : ∀ l, S (d l) = .free) (cs : List (Code ι)) (h : ∀ i c T, cs[i]? = some c → (∀ j, (∀ l, j ≠ d l) → T j = S j) →
      T (d i) = .free → c.Clean T ∧ (on i → c.exit T = Function.update T (d i) .bound) ∧ (¬ on i → c.exit T = T)) :
    (seq cs).Clean S ∧ Declared d on cs.length S ((seq cs).exit S) := by
  have hseq := clean_seq (P := fun k T => Declared d on k S T) cs (Declared.refl d on S) fun i c T hi hT => by
    rw [Nat.zero_add] at hT ⊢
    have hown : T (d i) = .free := by
      rw [hT.same (d i) fun l hl _ hdl => absurd (hd hdl) (Nat.ne_of_gt hl), hfree]
    obtain ⟨hc, hon, hoff⟩ := h i c T hi (fun j hj => hT.same j fun l _ _ => hj l) hown
    exact ⟨hc, hT.succ hon hoff⟩
  rwa [Nat.zero_add] at hseq

/-- The same for a declaration of each name below a bound. -/
theorem clean_rangeDeclarations {d : Nat → ι} (hd : Function.Injective d) {S : Names ι}
    (hfree : ∀ l, S (d l) = .free) {n : Nat}
    {f : Nat → Code ι} (hf : ∀ i < n, ∀ T : Names ι, (∀ j, (∀ l, j ≠ d l) → T j = S j) → T (d i) = .free →
      (f i).Clean T ∧ (f i).exit T = Function.update T (d i) .bound) :
    (seq ((List.range n).map f)).Clean S ∧ Declared d (fun _ => True) n S ((seq ((List.range n).map f)).exit S) := by
  obtain ⟨hclean, hend⟩ := clean_declarations hd (fun _ => True) hfree ((List.range n).map f) fun i c T hi hT hTi => by
    rw [List.getElem?_map, Option.map_eq_some_iff] at hi
    obtain ⟨k, hk, rfl⟩ := hi
    obtain ⟨hlt, rfl⟩ := List.getElem?_eq_some_iff.mp hk
    rw [List.length_range] at hlt
    rw [List.getElem_range]
    obtain ⟨hc, hexit⟩ := hf i hlt T hT hTi
    exact ⟨hc, fun _ => hexit, fun h => absurd trivial h⟩
  refine ⟨hclean, ?_⟩
  rwa [List.length_map, List.length_range] at hend

end Code

/-! ## From the table to the scope -/

/-- A table describes a scope: it knows the innermost binder of every name, and a name it
    has as bound was not bound again. -/
structure Names.Models (S : Names ι) (Γ : List (Binder ι)) : Prop where
  find : ∀ i, lookup id Γ i = (S i).binder i
  again : ∀ i, S i = .bound → .again i ∉ Γ

/-- A scope of first binders. -/
theorem Names.models_own (names : List ι) : Names.Models (Names.bindAll (fun _ => .free) names) (names.map .own) := by
  refine ⟨fun i => ?_, fun i _ hi => by simp at hi⟩
  induction names with
  | nil => simp [lookup, bindAll, Status.binder]
  | cons j names ih =>
    by_cases hj : j = i
    · simp [lookup, bindAll, Status.binder, hj]
    · simpa [lookup, bindAll, hj, Ne.symm hj] using ih

theorem Names.Models.bind {S : Names ι} {Γ : List (Binder ι)} (h : S.Models Γ) {b : Binder ι} (hb : S b.ident = b.before) :
    b ∉ Γ ∧ Names.Models (Function.update S b.ident b.status) (b :: Γ) := by
  have hfresh : b ∉ Γ := by
    cases b with
    | again i => exact h.again i hb
    | own i =>
      intro hmem
      have hnone : lookup id Γ i = none := by rw [h.find i, show S i = .free from hb]; rfl
      simpa using List.find?_eq_none.mp hnone _ hmem
  refine ⟨hfresh, fun i => ?_, fun i hi hmem => ?_⟩
  · by_cases hi : i = b.ident
    · subst hi
      rw [Function.update_self]
      cases b <;> simp [lookup, Status.binder]
    · rw [Function.update_of_ne hi, ← h.find i]
      simp [lookup, Ne.symm hi]
  · by_cases hne : i = b.ident
    · subst hne
      rw [Function.update_self] at hi
      cases b with
      | again j => cases hi
      | own j =>
        rcases List.mem_cons.mp hmem with heq | hmem
        · cases heq
        · have hnone : lookup id Γ j = none := by rw [h.find j, show S j = .free from hb]; rfl
          simpa using List.find?_eq_none.mp hnone _ hmem
    · rw [Function.update_of_ne hne] at hi
      rcases List.mem_cons.mp hmem with rfl | hmem
      · exact hne rfl
      · exact h.again i hi hmem

theorem lookup_text {ν : Type} [DecidableEq ν] {text : ι → ν} (ht : Function.Injective text) (Γ : List (Binder ι)) (i : ι) :
    lookup text Γ (text i) = lookup id Γ i := by
  unfold lookup
  congr 1
  funext b
  exact decide_eq_decide.mpr ht.eq_iff

/-- Clean code is capture free under every rendering that keeps the names apart. -/
theorem Code.Clean.captureFree {ν : Type} [DecidableEq ν] {text : ι → ν} (ht : Function.Injective text) :
    ∀ {c : Code ι} {S : Names ι} {Γ : List (Binder ι)}, S.Models Γ → c.Clean S → CaptureFree text Γ c
  | .done, _, _, _, _ => trivial
  | .read b c, S, Γ, hm, ⟨hb, hc⟩ => by
    refine ⟨?_, hc.captureFree ht hm⟩
    rw [lookup_text ht, hm.find, hb]
    cases b <;> rfl
  | .bind b c, S, Γ, hm, ⟨hb, hc⟩ => by
    obtain ⟨hfresh, hnext⟩ := hm.bind hb
    exact ⟨hfresh, hc.captureFree ht hnext⟩
  | .scope body c, S, Γ, hm, ⟨hbody, hc⟩ => ⟨hbody.captureFree ht hm, hc.captureFree ht hm⟩

end DfDerive.Lib
