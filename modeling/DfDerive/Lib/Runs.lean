/-
  DfDerive.Lib.Runs — runs that fail only in admitted ways.

  A program in `Except ε` may end in an error the program is allowed to report or in one
  that must never happen (a panic, an ill-typed step). `Runs E r G P` says that `r`
  succeeds exactly when `G` holds, with a result satisfying `P`, and that otherwise it
  ends in an error `E` admits. The rules below compose such statements along `>>=` and
  along the loops of a program (`Runs.foldlM`, `Runs.mapM`): the condition of a loop is
  the condition of its steps, taken over every prefix. `Stages` is a loop with a step after
  it, judged before the loop is run, so that several can share one loop. `Lockstep` relates
  two runs that fail alike.
-/

import Mathlib.Data.List.Basic
import Mathlib.Data.List.Forall2
import Mathlib.Tactic.Common

namespace DfDerive.Lib

variable {ε α β σ : Type} (E : ε → Prop)

@[simp] theorem ok_bind (a : α) (f : α → Except ε β) : (Except.ok a >>= f) = f a := rfl
@[simp] theorem error_bind (e : ε) (f : α → Except ε β) : (Except.error e >>= f) = .error e := rfl

/-- A run in two steps succeeds when both do. -/
theorem bind_eq_ok {x : Except ε α} {f : α → Except ε β} {b : β} :
    (x >>= f) = .ok b ↔ ∃ a, x = .ok a ∧ f a = .ok b := by
  cases x with
  | error e => exact ⟨nofun, fun ⟨_, h, _⟩ => nomatch h⟩
  | ok a => exact ⟨fun h => ⟨a, rfl, h⟩, fun ⟨_, h, hf⟩ => by cases h; exact hf⟩

theorem bind_eq_error {x : Except ε α} {f : α → Except ε β} {e : ε} :
    (x >>= f) = .error e ↔ x = .error e ∨ ∃ a, x = .ok a ∧ f a = .error e := by
  cases x with
  | error e' =>
    constructor
    · exact fun h => Or.inl (congrArg _ (Except.error.inj h))
    · rintro (h | ⟨_, h, _⟩)
      · exact congrArg _ (Except.error.inj h)
      · cases h
  | ok a =>
    constructor
    · exact fun h => Or.inr ⟨a, rfl, h⟩
    · rintro (h | ⟨_, h, hf⟩)
      · cases h
      · cases h
        exact hf

/-- `r` succeeds exactly when `G` holds, and then with a result satisfying `P`;
    otherwise it ends in an error admitted by `E`. -/
def Runs (r : Except ε α) (G : Prop) (P : α → Prop) : Prop :=
  (G → ∃ a, r = .ok a ∧ P a) ∧ (¬ G → ∃ e, r = .error e ∧ E e)

variable {E}

namespace Runs

/-! ## One step -/

theorem pure {a : α} {G : Prop} {P : α → Prop} (hG : G) (h : P a) : Runs E (.ok a) G P :=
  ⟨fun _ => ⟨a, rfl, h⟩, fun hn => absurd hG hn⟩

theorem throw {e : ε} {G : Prop} {P : α → Prop} (hG : ¬ G) (h : E e) : Runs E (.error e : Except ε α) G P :=
  ⟨fun hg => absurd hg hG, fun _ => ⟨e, rfl, h⟩⟩

/-- A checked value: the result when the check passes, the error otherwise. -/
theorem check {c : Prop} [Decidable c] {a : α} {e : ε} {P : α → Prop} (ha : c → P a) (he : E e) :
    Runs E (if c then .ok a else .error e) c P := by
  split
  · rename_i hc; exact pure hc (ha hc)
  · rename_i hc; exact throw hc he

theorem mono {r : Except ε α} {G : Prop} {P Q : α → Prop} (h : Runs E r G P) (hPQ : G → ∀ a, P a → Q a) :
    Runs E r G Q := by
  refine ⟨fun hg => ?_, h.2⟩
  obtain ⟨a, ha, hp⟩ := h.1 hg
  exact ⟨a, ha, hPQ hg a hp⟩

/-- More errors admitted. -/
theorem weaken {E' : ε → Prop} {r : Except ε α} {G : Prop} {P : α → Prop} (h : Runs E r G P) (hE : ∀ e, E e → E' e) :
    Runs E' r G P := by
  refine ⟨h.1, fun hg => ?_⟩
  obtain ⟨e, he, hadm⟩ := h.2 hg
  exact ⟨e, he, hE e hadm⟩

theorem congr {r : Except ε α} {G H : Prop} {P : α → Prop} (h : Runs E r G P) (hG : G ↔ H) : Runs E r H P :=
  ⟨fun hg => h.1 (hG.mpr hg), fun hg => h.2 fun h' => hg (hG.mp h')⟩

/-- Sequencing: both conditions, the second step being judged on every result the
    first one may give. -/
theorem bind {r : Except ε α} {f : α → Except ε β} {G H : Prop} {P : α → Prop} {Q : β → Prop}
    (h : Runs E r G P) (hf : G → ∀ a, P a → Runs E (f a) H Q) : Runs E (r >>= f) (G ∧ H) Q := by
  by_cases hg : G
  · obtain ⟨a, rfl, hp⟩ := h.1 hg
    exact congr (hf hg a hp) ⟨fun h' => ⟨hg, h'⟩, fun h' => h'.2⟩
  · obtain ⟨e, rfl, he⟩ := h.2 hg
    exact throw (fun h' => hg h'.1) he

theorem map {r : Except ε α} {f : α → β} {G : Prop} {P : α → Prop} {Q : β → Prop}
    (h : Runs E r G P) (hf : G → ∀ a, P a → Q (f a)) : Runs E (f <$> r) G Q := by
  refine ⟨fun hg => ?_, fun hg => ?_⟩
  · obtain ⟨a, rfl, hp⟩ := h.1 hg
    exact ⟨f a, rfl, hf hg a hp⟩
  · obtain ⟨e, rfl, he⟩ := h.2 hg
    exact ⟨e, rfl, he⟩

/-- A run that holds under every condition cannot fail. -/
theorem ok_of {r : Except ε α} {G : Prop} {P : α → Prop} (h : Runs E r G P) (hG : G) : ∃ a, r = .ok a ∧ P a := h.1 hG

theorem eq_ok_iff {r : Except ε α} {G : Prop} {P : α → Prop} (h : Runs E r G P) : (∃ a, r = .ok a) ↔ G := by
  constructor
  · rintro ⟨a, rfl⟩
    by_contra hg
    obtain ⟨e, he, -⟩ := h.2 hg
    cases he
  · intro hg
    obtain ⟨a, ha, -⟩ := h.1 hg
    exact ⟨a, ha⟩

theorem of_eq_ok {r : Except ε α} {G : Prop} {P : α → Prop} {a : α} (h : Runs E r G P) (ha : r = .ok a) : G ∧ P a := by
  have hg : G := h.eq_ok_iff.mp ⟨a, ha⟩
  obtain ⟨b, hb, hp⟩ := h.1 hg
  rw [ha] at hb
  cases hb
  exact ⟨hg, hp⟩

theorem of_eq_error {r : Except ε α} {G : Prop} {P : α → Prop} {e : ε} (h : Runs E r G P) (he : r = .error e) : E e := by
  have hg : ¬ G := fun hg => by
    obtain ⟨a, ha, -⟩ := h.1 hg
    rw [he] at ha
    cases ha
  obtain ⟨f, hf, hadm⟩ := h.2 hg
  rw [he] at hf
  cases hf
  exact hadm

/-- Whatever happens, the run ends in a result or in an admitted error. -/
theorem safe {r : Except ε α} {G : Prop} {P : α → Prop} (h : Runs E r G P) :
    (∃ a, r = .ok a ∧ P a) ∨ ∃ e, r = .error e ∧ E e := by
  by_cases hg : G
  · exact Or.inl (h.1 hg)
  · exact Or.inr (h.2 hg)

/-! ## Loops -/

/-- The loop rule. `I pre s` relates the elements done so far to the state; a step may
    fail under a condition that depends on them. -/
theorem foldlM_from {f : σ → α → Except ε σ} {I : List α → σ → Prop} {G : List α → α → Prop} (done : List α) :
    ∀ (l : List α) (s : σ), I done s →
      (∀ pre a post s, l = pre ++ a :: post → I (done ++ pre) s →
        Runs E (f s a) (G (done ++ pre) a) (I (done ++ pre ++ [a]))) →
      Runs E (l.foldlM f s) (∀ pre a post, l = pre ++ a :: post → G (done ++ pre) a) (I (done ++ l)) := by
  intro l
  induction l generalizing done with
  | nil =>
    intro s h0 _
    refine pure (fun pre a post h => ?_) (by simpa using h0)
    simp at h
  | cons a l ih =>
    intro s h0 step
    have hstep := step [] a l s rfl (by simpa using h0)
    simp only [List.append_nil] at hstep
    have htail : ∀ s', I (done ++ [a]) s' →
        Runs E (l.foldlM f s') (∀ pre b post, l = pre ++ b :: post → G (done ++ [a] ++ pre) b)
          (I (done ++ [a] ++ l)) := by
      intro s' hs'
      refine ih (done ++ [a]) s' hs' fun pre b post t hl ht => ?_
      have := step (a :: pre) b post t (by simp [hl]) (by simpa using ht)
      simpa using this
    rw [List.foldlM_cons]
    refine congr (by simpa using bind hstep fun _ s' hs' => htail s' hs') ?_
    constructor
    · rintro ⟨h1, h2⟩ pre b post hl
      cases pre with
      | nil => simp at hl; obtain ⟨rfl, rfl⟩ := hl; simpa using h1
      | cons c pre => simp at hl; obtain ⟨rfl, rfl⟩ := hl; simpa using h2 pre b post rfl
    · intro h
      refine ⟨by simpa using h [] a l rfl, fun pre b post hl => ?_⟩
      simpa using h (a :: pre) b post (by simp [hl])

theorem foldlM {f : σ → α → Except ε σ} {I : List α → σ → Prop} {G : List α → α → Prop} {l : List α} {s : σ}
    (h0 : I [] s)
    (step : ∀ pre a post s, l = pre ++ a :: post → I pre s → Runs E (f s a) (G pre a) (I (pre ++ [a]))) :
    Runs E (l.foldlM f s) (∀ pre a post, l = pre ++ a :: post → G pre a) (I l) := by
  have h := foldlM_from (E := E) (f := f) (I := I) (G := G) [] l s h0 (by simpa using step)
  simpa using h

/-- The loop rule for a condition on everything done so far. `R` is promised of the whole
    list, `F` is what the loop checks as it goes; both pass to prefixes. -/
theorem foldlM_grow {f : σ → α → Except ε σ} {I : List α → σ → Prop} {R F : List α → Prop}
    (hF : ∀ xs ys, F (xs ++ ys) → F xs) (hR : ∀ xs ys, R (xs ++ ys) → R xs) :
    ∀ (l done : List α) (s : σ),
      (∀ pre a s, a ∈ l → R (pre ++ [a]) → F pre → I pre s → Runs E (f s a) (F (pre ++ [a])) (I (pre ++ [a]))) →
      R (done ++ l) → F done → I done s → Runs E (l.foldlM f s) (F (done ++ l)) (I (done ++ l)) := by
  intro l
  induction l with
  | nil =>
    intro done s _ _ h0 hI
    rw [List.append_nil]
    exact pure h0 hI
  | cons a l ih =>
    intro done s step hr h0 hI
    rw [List.append_cons] at hr ⊢
    have hstep := step done a s List.mem_cons_self (hR _ _ hr) h0 hI
    rw [List.foldlM_cons]
    have htail : F (done ++ [a]) → ∀ s', I (done ++ [a]) s' →
        Runs E (l.foldlM f s') (F (done ++ [a] ++ l)) (I (done ++ [a] ++ l)) := fun h1 s' hs' =>
      ih (done ++ [a]) s' (fun pre b t hb => step pre b t (List.mem_cons_of_mem _ hb)) hr h1 hs'
    refine congr (bind hstep htail) ?_
    exact ⟨fun h => h.2, fun h => ⟨hF _ l h, h⟩⟩

/-- Two loop bodies that agree on the states the loop reaches give the same loop. -/
theorem foldlM_congr {f g : σ → α → Except ε σ} {I : σ → Prop} : ∀ (l : List α) (s : σ),
    (∀ s a, a ∈ l → I s → f s a = g s a) → (∀ s a s', a ∈ l → I s → g s a = .ok s' → I s') → I s →
      l.foldlM f s = l.foldlM g s := by
  intro l
  induction l with
  | nil => intro s _ _ _; rfl
  | cons a l ih =>
    intro s h hI h0
    rw [List.foldlM_cons, List.foldlM_cons, h s a List.mem_cons_self h0]
    cases hg : g s a with
    | error e => rfl
    | ok s' =>
      exact ih s' (fun s b hb => h s b (List.mem_cons_of_mem _ hb)) (fun s b t hb => hI s b t (List.mem_cons_of_mem _ hb))
        (hI s a s' List.mem_cons_self h0 hg)

/-- What every step of a loop keeps, the loop keeps. -/
theorem foldlM_keeps {f : σ → α → Except ε σ} {I : σ → Prop} : ∀ (l : List α) (s s' : σ),
    (∀ s a s', a ∈ l → I s → f s a = .ok s' → I s') → I s → l.foldlM f s = .ok s' → I s' := by
  intro l
  induction l with
  | nil => intro s s' _ h0 h; cases h; exact h0
  | cons a l ih =>
    intro s s' hI h0 h
    rw [List.foldlM_cons] at h
    cases hf : f s a with
    | error e => rw [hf] at h; cases h
    | ok t =>
      rw [hf] at h
      exact ih t s' (fun s b u hb => hI s b u (List.mem_cons_of_mem _ hb)) (hI s a t List.mem_cons_self h0 hf) h

/-- Running a step on each element and collecting the results; the steps are judged by the
    elements of another list. -/
theorem mapM₂ {γ : Type} {f : α → Except ε β} {G : γ → Prop} {R : γ → β → Prop} {l : List α} {rs : List γ}
    (step : List.Forall₂ (fun a r => Runs E (f a) (G r) (R r)) l rs) :
    Runs E (l.mapM f) (∀ r ∈ rs, G r) (fun bs => List.Forall₂ R rs bs) := by
  induction step with
  | nil => exact pure (by simp) List.Forall₂.nil
  | @cons a r l rs ha _ ih =>
    rw [List.mapM_cons]
    refine congr (G := G r ∧ ((∀ b ∈ rs, G b) ∧ True)) ?_ (by simp)
    refine bind ha fun _ b hb => bind ih fun _ bs hbs => ?_
    exact pure trivial (List.Forall₂.cons hb hbs)

theorem mapM {f : α → Except ε β} {G : α → Prop} {R : α → β → Prop} {l : List α}
    (step : ∀ a ∈ l, Runs E (f a) (G a) (R a)) :
    Runs E (l.mapM f) (∀ a ∈ l, G a) (fun bs => List.Forall₂ R l bs) :=
  mapM₂ (List.forall₂_same.mpr step)

end Runs

/-! ### What a loop over the elements of a list gives -/

theorem mapM_eq_ok {f : α → Except ε β} : ∀ {l : List α} {bs : List β}, l.mapM f = .ok bs →
    List.Forall₂ (fun a b => f a = .ok b) l bs
  | [], _, h => by cases h; exact .nil
  | a :: l, bs, h => by
    rw [List.mapM_cons] at h
    obtain ⟨b, hb, h⟩ := bind_eq_ok.mp h
    obtain ⟨rest, hrest, hok⟩ := bind_eq_ok.mp h
    cases hok
    exact .cons hb (mapM_eq_ok hrest)

/-- A loop that ends has had a result for each element. -/
theorem mapM_ok_mem {f : α → Except ε β} : ∀ {l : List α} {bs : List β}, l.mapM f = .ok bs → ∀ a ∈ l, ∃ b, f a = .ok b
  | [], _, _, _, ha => by cases ha
  | a :: l, bs, h, a', ha => by
    rw [List.mapM_cons] at h
    obtain ⟨b, hb, h⟩ := bind_eq_ok.mp h
    obtain ⟨rest, hrest, -⟩ := bind_eq_ok.mp h
    rcases List.mem_cons.mp ha with rfl | ha
    · exact ⟨b, hb⟩
    · exact mapM_ok_mem hrest a' ha

theorem mapM_eq_error {f : α → Except ε β} {e : ε} : ∀ {l : List α}, l.mapM f = .error e → ∃ a ∈ l, f a = .error e
  | [], h => by cases h
  | a :: l, h => by
    rw [List.mapM_cons] at h
    cases ha : f a with
    | error e' =>
      rw [ha] at h
      cases h
      exact ⟨a, List.mem_cons_self, ha⟩
    | ok b =>
      rw [ha, ok_bind] at h
      cases hl : l.mapM f with
      | error e' =>
        rw [hl] at h
        cases h
        obtain ⟨c, hc, he⟩ := mapM_eq_error hl
        exact ⟨c, List.mem_cons_of_mem a hc, he⟩
      | ok bs =>
        rw [hl] at h
        cases h

/-- What is done to every result can be done afterwards. -/
theorem mapM_map {γ : Type} (f : α → Except ε β) (g : β → γ) : ∀ l : List α,
    l.mapM (fun a => (f a).map g) = (l.mapM f).map (List.map g)
  | [] => rfl
  | a :: l => by
    rw [List.mapM_cons, List.mapM_cons, mapM_map f g l]
    cases f a with
    | error e => rfl
    | ok b =>
      cases l.mapM f with
      | error e => rfl
      | ok bs => rfl

/-! ## A loop and the step after it -/

/-- A loop over `items` from `init`, then a last step. A round succeeds under a condition on
    its own element, and `G` is the condition of all of them together. -/
def Stages (E : ε → Prop) (init : σ) (push : σ → α → Except ε σ) (build : σ → Except ε β) (items : List α) (G : Prop)
    (P : β → Prop) : Prop :=
  ∃ (I : List α → σ → Prop) (row : α → Prop) (final : Prop), ((∀ a ∈ items, row a) ∧ final ↔ G) ∧ I [] init ∧
    (∀ done a rest s, items = done ++ a :: rest → I done s → Runs E (push s a) (row a) (I (done ++ [a]))) ∧
    ∀ s, I items s → Runs E (build s) final P

namespace Stages

variable {init : σ} {push : σ → α → Except ε σ} {build : σ → Except ε β} {items : List α} {G H : Prop} {P Q : β → Prop}

theorem runs (h : Stages E init push build items G P) :
    Runs E (do
      let s ← items.foldlM push init
      build s) G P := by
  obtain ⟨I, row, final, hG, h0, hstep, hfinal⟩ := h
  have hloop : Runs E (items.foldlM push init) (∀ a ∈ items, row a) (I items) := by
    refine Runs.congr (Runs.foldlM (G := fun _ a => row a) h0 hstep) ⟨fun h a ha => ?_, fun h done a rest hl => ?_⟩
    · obtain ⟨done, rest, hl⟩ := List.append_of_mem ha
      exact h done a rest hl
    · exact h a (by simp [hl])
  exact Runs.congr (Runs.bind hloop fun _ s hs => hfinal s hs) hG

theorem congr (h : Stages E init push build items G P) (hG : G ↔ H) : Stages E init push build items H P := by
  obtain ⟨I, row, final, hrow, hrest⟩ := h
  exact ⟨I, row, final, hrow.trans hG, hrest⟩

/-- A weaker result, when every round and the last step succeed. -/
theorem mono (h : Stages E init push build items G P) (hPQ : G → ∀ b, P b → Q b) : Stages E init push build items G Q := by
  obtain ⟨I, row, final, hrow, h0, hstep, hfinal⟩ := h
  -- the invariant remembers that the rounds so far succeeded
  refine ⟨fun done s => I done s ∧ ∀ a ∈ done, row a, row, final, hrow, ⟨h0, by simp⟩, fun done a rest s hl hs => ?_,
    fun s hs => ⟨fun hf => ?_, (hfinal s hs.1).2⟩⟩
  · refine ⟨fun hra => ?_, (hstep done a rest s hl hs.1).2⟩
    obtain ⟨t, ht, hI⟩ := (hstep done a rest s hl hs.1).1 hra
    refine ⟨t, ht, hI, fun b hb => ?_⟩
    rcases List.mem_append.mp hb with hb | hb
    · exact hs.2 b hb
    · rw [List.mem_singleton.mp hb]
      exact hra
  · obtain ⟨b, hb, hp⟩ := (hfinal s hs.1).1 hf
    exact ⟨b, hb, hPQ (hrow.mp ⟨hs.2, hf⟩) b hp⟩

theorem weaken {E' : ε → Prop} (h : Stages E init push build items G P) (hE : ∀ e, E e → E' e) :
    Stages E' init push build items G P := by
  obtain ⟨I, row, final, hrow, h0, hstep, hfinal⟩ := h
  exact ⟨I, row, final, hrow, h0, fun done a rest s hl hs => (hstep done a rest s hl hs).weaken hE,
    fun s hs => (hfinal s hs).weaken hE⟩

/-- A loop that does nothing. -/
theorem idle {push : σ → α → Except ε σ} (hpush : ∀ s a, push s a = .ok s) (h : Runs E (build init) G P) :
    Stages E init push build items G P := by
  refine ⟨fun _ s => s = init, fun _ => True, G, by simp, rfl, fun _ a _ s _ hs => ?_, fun s hs => ?_⟩
  · rw [hpush]
    exact Runs.pure trivial hs
  · rw [hs]
    exact h

/-- The last step followed by another. -/
theorem bind {γ : Type} {f : β → Except ε γ} {R : γ → Prop} (h : Stages E init push build items G P)
    (hf : ∀ b, P b → ∃ c, f b = .ok c ∧ R c) : Stages E init push (fun s => build s >>= f) items G R := by
  obtain ⟨I, row, final, hrow, h0, hstep, hfinal⟩ := h
  refine ⟨I, row, final, hrow, h0, hstep, fun s hs => Runs.congr (Runs.bind (hfinal s hs) fun _ b hb => ?_) (iff_of_eq (and_true _))⟩
  obtain ⟨c, hc, hr⟩ := hf b hb
  rw [hc]
  exact Runs.pure trivial hr

end Stages

/-! ## Runs that are only known to be safe -/

/-- `r` ends in a result satisfying `P`, or in an admitted error. -/
def Safe (E : ε → Prop) (r : Except ε α) (P : α → Prop) : Prop := (∃ a, r = .ok a ∧ P a) ∨ ∃ e, r = .error e ∧ E e

namespace Safe

theorem pure {a : α} {P : α → Prop} (h : P a) : Safe E (.ok a) P := Or.inl ⟨a, rfl, h⟩

theorem bind {r : Except ε α} {f : α → Except ε β} {P : α → Prop} {Q : β → Prop} (h : Safe E r P)
    (hf : ∀ a, P a → Safe E (f a) Q) : Safe E (r >>= f) Q := by
  rcases h with ⟨a, rfl, ha⟩ | ⟨e, rfl, he⟩
  · exact hf a ha
  · exact Or.inr ⟨e, rfl, he⟩

theorem mapM₂ {γ : Type} {f : α → Except ε β} {R : γ → β → Prop} {l : List α} {rs : List γ}
    (h : List.Forall₂ (fun a r => Safe E (f a) (R r)) l rs) : Safe E (l.mapM f) (fun bs => List.Forall₂ R rs bs) := by
  induction h with
  | nil => exact pure .nil
  | cons ha _ ih =>
    rw [List.mapM_cons]
    exact bind ha fun b hb => bind ih fun bs hbs => pure (.cons hb hbs)

end Safe

/-! ## Two runs in step -/

/-- Two runs that end in the same error, or in results related by `R`. -/
def Lockstep (R : α → β → Prop) (r : Except ε α) (t : Except ε β) : Prop :=
  (∃ e, r = .error e ∧ t = .error e) ∨ ∃ a b, r = .ok a ∧ t = .ok b ∧ R a b

namespace Lockstep

theorem pure {R : α → β → Prop} {a : α} {b : β} (h : R a b) : Lockstep R (.ok a : Except ε α) (.ok b) :=
  Or.inr ⟨a, b, rfl, rfl, h⟩

theorem bind {γ δ : Type} {R : α → β → Prop} {S : γ → δ → Prop} {r : Except ε α} {t : Except ε β} {f : α → Except ε γ}
    {g : β → Except ε δ} (h : Lockstep R r t) (hf : ∀ a b, R a b → Lockstep S (f a) (g b)) :
    Lockstep S (r >>= f) (t >>= g) := by
  rcases h with ⟨e, rfl, rfl⟩ | ⟨a, b, rfl, rfl, hab⟩
  · exact Or.inl ⟨e, rfl, rfl⟩
  · exact hf a b hab

theorem eq {r t : Except ε α} (h : Lockstep (· = ·) r t) : r = t := by
  rcases h with ⟨e, rfl, rfl⟩ | ⟨a, b, rfl, rfl, rfl⟩
  · rfl
  · rfl

/-- Two loops over the same list whose bodies stay in step. -/
theorem foldlM {τ : Type} {f : σ → α → Except ε σ} {g : τ → α → Except ε τ} {R : List α → σ → τ → Prop} :
    ∀ (l done : List α) (s : σ) (t : τ),
      (∀ pre a post s t, done ++ l = pre ++ a :: post → R pre s t → Lockstep (R (pre ++ [a])) (f s a) (g t a)) →
      R done s t → Lockstep (R (done ++ l)) (l.foldlM f s) (l.foldlM g t) := by
  intro l
  induction l with
  | nil =>
    intro done s t _ h0
    rw [List.append_nil]
    exact pure h0
  | cons a l ih =>
    intro done s t step h0
    rw [List.append_cons] at step ⊢
    rw [List.foldlM_cons, List.foldlM_cons]
    have hstep := step done a l s t (by simp) h0
    exact bind hstep fun s' t' h => ih (done ++ [a]) s' t' step h

end Lockstep

end DfDerive.Lib
