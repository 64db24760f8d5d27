/-
  DfDerive.Lower.Wrappers — `normalize_wrappers` (`lower/wrappers.rs`).

  The loop keeps the layers closed so far and the access chain pending above the next
  boundary; a `Vec` closes the pending chain into a layer. Nothing is lost: the word of
  the normal form is the sequence it was built from, unless the sequence has neither
  `Option` nor `Vec` (`word_normalizeWrappers`, `word_normalizeWrappers_vec`), and every
  cached count is the count of its chain (`normalizeWrappers_counted`).
-/

import DfDerive.Ir.Wrappers

namespace DfDerive

/-- The loop state of `normalize_wrappers`. -/
structure NormState where
  layers : List VecLayerSpec
  pendingAccess : AccessChain

def NormState.step (s : NormState) : RawWrapper → NormState
  | .option => { s with pendingAccess := ⟨s.pendingAccess.steps ++ [.option]⟩ }
  | .smartPtr => { s with pendingAccess := ⟨s.pendingAccess.steps ++ [.smartPtr]⟩ }
  | .vec => ⟨s.layers ++ [⟨s.pendingAccess.optionLayers, s.pendingAccess⟩], .empty⟩

def NormState.finish (s : NormState) : WrapperShape :=
  match NonEmpty.fromVec s.layers with
  | none => .leaf (.fromOptionAccess s.pendingAccess.optionLayers s.pendingAccess)
  | some layers => .vec ⟨layers, s.pendingAccess.optionLayers, s.pendingAccess⟩

def normalizeWrappers (wrappers : List RawWrapper) : WrapperShape :=
  (wrappers.foldl NormState.step ⟨[], .empty⟩).finish

/-! ## Losslessness -/

def NormState.word (s : NormState) : List RawWrapper := s.layers.flatMap VecLayerSpec.word ++ s.pendingAccess.word

theorem NormState.word_step (s : NormState) (w : RawWrapper) : (s.step w).word = s.word ++ [w] := by
  cases w <;>
    simp [NormState.step, NormState.word, AccessChain.word, AccessStep.word, VecLayerSpec.word, AccessChain.empty]

theorem NormState.word_foldl (ws : List RawWrapper) (s : NormState) : (ws.foldl NormState.step s).word = s.word ++ ws := by
  induction ws generalizing s with
  | nil => simp
  | cons w ws ih => rw [List.foldl_cons, ih, word_step, List.append_assoc]; rfl

def NormState.Counted (s : NormState) : Prop := ∀ l ∈ s.layers, l.Counted

theorem NormState.counted_foldl (ws : List RawWrapper) (s : NormState) (h : s.Counted) :
    (ws.foldl NormState.step s).Counted := by
  induction ws generalizing s with
  | nil => exact h
  | cons w ws ih =>
    apply ih
    cases w with
    | option => exact h
    | smartPtr => exact h
    | vec =>
      intro l hl
      rcases List.mem_append.mp hl with hl | hl
      · exact h l hl
      · simp at hl; subst hl; rfl

theorem fromVec_eq_some {α : Type} {l : List α} {n : NonEmpty α} (h : NonEmpty.fromVec l = some n) : l = n.toList := by
  cases l with
  | nil => cases h
  | cons a l => cases h; rfl

theorem word_normalizeWrappers_vec {ws : List RawWrapper} {s : VecLayers} (h : normalizeWrappers ws = .vec s) :
    s.word = ws := by
  have hw := NormState.word_foldl ws ⟨[], .empty⟩
  unfold normalizeWrappers NormState.finish at h
  split at h
  · cases h
  · rename_i layers hl
    cases h
    have := fromVec_eq_some hl
    simpa [NormState.word, VecLayers.word, this] using hw

theorem normalizeWrappers_counted {ws : List RawWrapper} {s : VecLayers} (h : normalizeWrappers ws = .vec s) :
    (∀ l ∈ s.layers.toList, l.Counted) ∧ s.innerOptionLayers = s.innerAccess.optionLayers := by
  have hc := NormState.counted_foldl ws ⟨[], .empty⟩ (by intro l hl; cases hl)
  unfold normalizeWrappers NormState.finish at h
  split at h
  · cases h
  · rename_i layers hl
    cases h
    rw [NormState.Counted, fromVec_eq_some hl] at hc
    exact ⟨hc, rfl⟩

theorem normalizeWrappers_nullable {ws : List RawWrapper} {s : VecLayers} (h : normalizeWrappers ws = .vec s) :
    s.Nullable := by
  obtain ⟨h1, h2⟩ := normalizeWrappers_counted h
  refine ⟨fun l hl => ?_, by rw [h2]⟩
  have := h1 l hl
  rw [VecLayerSpec.Counted] at this
  rw [this]

/-- A leaf shape keeps the word too, as long as it has an `Option`. -/
theorem word_normalizeWrappers_leaf {ws : List RawWrapper} {s : LeafShape} (h : normalizeWrappers ws = .leaf s) :
    (s = .bare ∧ ∀ w ∈ ws, w = .smartPtr) ∨
      ∃ n c, s = .optional n c ∧ n = c.optionLayers ∧ 0 < n ∧ c.word = ws := by
  have hw := NormState.word_foldl ws ⟨[], .empty⟩
  unfold normalizeWrappers NormState.finish at h
  split at h
  · rename_i hl
    cases h
    have hnil : (ws.foldl NormState.step ⟨[], .empty⟩).layers = [] := by
      cases hf : (ws.foldl NormState.step ⟨[], .empty⟩).layers with
      | nil => rfl
      | cons a l => rw [hf] at hl; cases hl
    simp only [NormState.word, hnil, List.flatMap_nil, List.nil_append, AccessChain.word_empty] at hw
    unfold LeafShape.fromOptionAccess
    split
    · rename_i h0
      refine Or.inl ⟨rfl, fun w hmem => ?_⟩
      rw [← hw] at hmem
      obtain ⟨st, hst, rfl⟩ := List.mem_map.mp hmem
      cases st with
      | smartPtr => rfl
      | option =>
        have : 0 < (ws.foldl NormState.step ⟨[], .empty⟩).pendingAccess.optionLayers :=
          List.countP_pos_iff.mpr ⟨_, hst, rfl⟩
        omega
    · exact Or.inr ⟨_, _, rfl, rfl, by omega, hw⟩
  · cases h

end DfDerive
