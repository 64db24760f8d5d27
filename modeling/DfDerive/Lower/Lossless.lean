/-
  DfDerive.Lower.Lossless — the wrappers of a field type survive normalization.

  `wrappers_lossless`: the pointers counted apart, the chains and layers of the shape and, for
  bytes, the `Vec` of the bytes are the stack as written. Every cached count is that of its
  chain, and the chain a bare shape drops is empty.
-/

import DfDerive.Lower.Accepted

namespace DfDerive

open Lib

/-- Every cached option count is the number of `Option` steps of its chain. -/
def WrapperShape.CountsExact : WrapperShape → Prop
  | leaf s => s.optionLayers = s.access.optionLayers
  | vec s => (∀ l ∈ s.layers.toList, l.optionLayersAbove = l.access.optionLayers) ∧
      s.innerOptionLayers = s.innerAccess.optionLayers

/-- `depth` pointers, then the shape, then `tail`, are the stack. -/
structure KeepsStack (stack : List RawWrapper) (depth : Nat) (shape : WrapperShape) (tail : List RawWrapper) : Prop where
  sequence : stack = List.replicate depth .smartPtr ++ (shape.word ++ tail)
  counts : shape.CountsExact
  first : ∀ c, shape.firstAccess.steps ≠ .smartPtr :: c
  empty : shape.firstAccess.optionLayers = 0 → shape.firstAccess = .empty

/-- A chain without `Option`s that does not begin with a pointer is empty. -/
theorem empty_of_first {c : AccessChain} (hfirst : ∀ c', c.steps ≠ .smartPtr :: c') (h : c.optionLayers = 0) :
    c = .empty := by
  obtain ⟨steps⟩ := c
  cases steps with
  | nil => rfl
  | cons s steps =>
    cases s with
    | smartPtr => exact absurd rfl (hfirst steps)
    | option =>
      rw [AccessChain.optionLayers_cons_option] at h
      cases h

/-- Pointers alone are no word that begins with an `Option` or a `Vec`. -/
theorem nil_of_pointers {ws : List RawWrapper} (hfirst : ∀ ws', ws ≠ .smartPtr :: ws') (h : ∀ w ∈ ws, w = .smartPtr) :
    ws = [] := by
  cases ws with
  | nil => rfl
  | cons w ws =>
    rw [h w List.mem_cons_self] at hfirst
    exact absurd rfl (hfirst ws)

theorem normalizeWrappers_word {ws : List RawWrapper} (hfirst : ∀ ws', ws ≠ .smartPtr :: ws') :
    (normalizeWrappers ws).word = ws := by
  cases h : normalizeWrappers ws with
  | vec s => exact word_normalizeWrappers_vec h
  | leaf s =>
    rcases word_normalizeWrappers_leaf h with ⟨rfl, hptr⟩ | ⟨n, c, rfl, -, -, hword⟩
    · exact (nil_of_pointers hfirst hptr).symm
    · exact hword

theorem normalizeWrappers_counts (ws : List RawWrapper) : (normalizeWrappers ws).CountsExact := by
  cases h : normalizeWrappers ws with
  | vec s => exact normalizeWrappers_counted h
  | leaf s =>
    rcases word_normalizeWrappers_leaf h with ⟨rfl, -⟩ | ⟨n, c, rfl, hn, -, -⟩
    · rfl
    · exact hn

/-- Normalizing kept wrappers keeps the stack. -/
theorem keepsStack_normalize {stack kept tail : List RawWrapper} {depth : Nat} (hfirst : ∀ ws, kept ≠ .smartPtr :: ws)
    (hstack : stack = List.replicate depth .smartPtr ++ (kept ++ tail)) :
    KeepsStack stack depth (normalizeWrappers kept) tail := by
  have hnormal : ∀ c, (normalizeWrappers kept).firstAccess.steps ≠ .smartPtr :: c :=
    (normalizeWrappers_normalized hfirst).first
  refine ⟨?_, normalizeWrappers_counts kept, hnormal, empty_of_first hnormal⟩
  rw [normalizeWrappers_word hfirst]
  exact hstack

/-- The chain that is dropped with a bare shape. -/
theorem dropped_chain {ws : List RawWrapper} (hfirst : ∀ ws', ws ≠ .smartPtr :: ws')
    (hlayers : (ws.foldl NormState.step ⟨[], .empty⟩).layers = [])
    (hbare : (ws.foldl NormState.step ⟨[], .empty⟩).pendingAccess.optionLayers = 0) :
    (ws.foldl NormState.step ⟨[], .empty⟩).pendingAccess = .empty := by
  have hword := NormState.word_foldl ws ⟨[], .empty⟩
  simp only [NormState.word, hlayers, List.flatMap_nil, List.nil_append, AccessChain.word_empty] at hword
  refine empty_of_first (fun c hc => ?_) hbare
  rw [AccessChain.word, hc] at hword
  exact hfirst _ hword.symm

/-- The `Vec` of the bytes of an `as_binary` field. -/
def bytesTail : AnalyzedBase → List RawWrapper
  | .leaf (.numeric .u8) => [.vec]
  | _ => []

theorem bytesTail_cases (base : AnalyzedBase) : bytesTail base = [] ∨ bytesTail base = [.vec] := by
  unfold bytesTail
  split
  · exact Or.inr rfl
  · exact Or.inl rfl

/-- What `as_binary` trims is the `Vec` of the bytes. -/
theorem parseAsBinaryShape_trimmed {field : String} {base : AnalyzedBase} {wrappers trimmed : List RawWrapper}
    {leaf : LeafSpec} (h : parseAsBinaryShape field base wrappers = .ok (leaf, trimmed)) :
    leaf = .binary ∧ wrappers = trimmed ++ bytesTail base := by
  unfold parseAsBinaryShape at h
  split at h
  · cases h
    exact ⟨rfl, (List.append_nil _).symm⟩
  · cases h
    exact ⟨rfl, (List.append_nil _).symm⟩
  · cases h
  · cases h
  · split at h
    · cases h
    · split at h <;> cases h
    · rename_i hlast
      cases h
      obtain ⟨init, rfl⟩ := List.getLast?_eq_some_iff.mp hlast
      rw [List.dropLast_concat]
      exact ⟨rfl, rfl⟩
    · cases h
  · cases h

theorem keepsStack_peel {stack kept tail : List RawWrapper} (h : (peelTypeWrappers stack).wrappers = kept ++ tail) :
    (∀ ws, kept ≠ .smartPtr :: ws) ∧
      KeepsStack stack (peelTypeWrappers stack).outerSmartPtrDepth (normalizeWrappers kept) tail := by
  have hpeeled := peelTypeWrappers_of stack
  have hfirst : ∀ ws, kept ≠ .smartPtr :: ws := by
    rintro ws rfl
    exact hpeeled.first _ h
  refine ⟨hfirst, keepsStack_normalize hfirst ?_⟩
  rw [← h]
  exact hpeeled.stack

/-- No wrapper of a field type is lost, moved or counted wrongly. -/
theorem wrappers_lossless (stack : List RawWrapper) :
    KeepsStack stack (peelTypeWrappers stack).outerSmartPtrDepth (normalizeWrappers (peelTypeWrappers stack).wrappers) [] ∧
    (∀ field base leaf trimmed, parseAsBinaryShape field base (peelTypeWrappers stack).wrappers = .ok (leaf, trimmed) →
      KeepsStack stack (peelTypeWrappers stack).outerSmartPtrDepth (normalizeWrappers trimmed) (bytesTail base)) ∧
    (∀ kept tail, (peelTypeWrappers stack).wrappers = kept ++ tail →
      (kept.foldl NormState.step ⟨[], .empty⟩).layers = [] →
        (kept.foldl NormState.step ⟨[], .empty⟩).pendingAccess.optionLayers = 0 →
          (kept.foldl NormState.step ⟨[], .empty⟩).pendingAccess = .empty) ∧
    (∀ (base : RustBase) (disposition : FieldDisposition) (name : String) (fieldIndex : Option Nat) (ir : FieldIR),
      lowerField ⟨.mk stack base, disposition⟩ name fieldIndex = .ok (some ir) →
        ∃ tail, KeepsStack stack ir.outerSmartPtrDepth ir.wrapperShape tail ∧
          (tail = [] ∨ tail = [.vec] ∧ ir.leafSpec = .binary)) := by
  refine ⟨(keepsStack_peel (List.append_nil _).symm).2, fun field base leaf trimmed h => ?_,
    fun kept tail h => dropped_chain (keepsStack_peel h).1, fun base disposition name fieldIndex ir h => ?_⟩
  · exact (keepsStack_peel (parseAsBinaryShape_trimmed h).2).2
  · obtain ⟨_, ⟨abase, kept, depth⟩, leafSpec, wrappers, policy, -, hanalyzed, -, hleaf, rfl⟩ := lowerField_ok h
    obtain ⟨b, -, hok⟩ := bind_eq_ok.mp hanalyzed
    cases hok
    rcases hleaf with ⟨-, -, rfl⟩ | ⟨-, hbinary⟩
    · exact ⟨[], (keepsStack_peel (List.append_nil _).symm).2, Or.inl rfl⟩
    · obtain ⟨rfl, htrimmed⟩ := parseAsBinaryShape_trimmed hbinary
      exact ⟨_, (keepsStack_peel htrimmed).2, (bytesTail_cases _).imp_right fun h => ⟨h, rfl⟩⟩

end DfDerive
