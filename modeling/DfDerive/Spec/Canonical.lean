/-
  DfDerive.Spec.Canonical — values without pointers, with one `Option` where several are in a row.

  `canonWord` takes the pointers out of a word and keeps one of every run of `Option`s;
  `canonValue` does so with a value, which keeps its cell, its leaves and the sizes of its lists.
  `Walk.Carries` is the same of two ways: from rows with the same lists and nulls to leaves and
  their images.
-/

import DfDerive.Spec.Alike

namespace DfDerive

open Lib

/-! ## Words -/

/-- One `Option` more, unless there is one. -/
def consOption : List RawWrapper → List RawWrapper
  | .option :: w => .option :: w
  | w => .option :: w

def canonWord : List RawWrapper → List RawWrapper
  | [] => []
  | .smartPtr :: w => canonWord w
  | .option :: w => consOption (canonWord w)
  | .vec :: w => .vec :: canonWord w

/-- A present value, below one `Option` more unless there is one. -/
def wrapSome : List RawWrapper → Value → Value
  | .option :: _, v => v
  | _, v => .some v

/-- The value of the canonical word, with `f` applied to its leaves. -/
def canonValue (f : Value → Value) : List RawWrapper → Value → Value
  | [], v => f v
  | .smartPtr :: w, .ptr v => canonValue f w v
  | .option :: w, .some v => wrapSome (canonWord w) (canonValue f w v)
  | .vec :: w, .vec vs => .vec (vs.map (canonValue f w))
  | _, v => v

theorem consOption_cases (w : List RawWrapper) :
    (∃ w', w = .option :: w' ∧ consOption w = .option :: w') ∨
      (consOption w = .option :: w ∧ ∀ v, wrapSome w v = .some v) := by
  cases w with
  | nil => exact Or.inr ⟨rfl, fun _ => rfl⟩
  | cons s w =>
    cases s with
    | option => exact Or.inl ⟨w, rfl, rfl⟩
    | vec | smartPtr => exact Or.inr ⟨rfl, fun _ => rfl⟩

section

variable {P : Value → Prop} {w : List RawWrapper} {v : Value}

theorem hasWord_consOption : HasWord P (consOption w) (wrapSome w v) ↔ HasWord P w v := by
  rcases consOption_cases w with ⟨w', rfl, -⟩ | ⟨hcons, hwrap⟩
  · exact Iff.rfl
  · rw [hcons, hwrap]
    exact Iff.rfl

theorem hasWord_consOption_none : HasWord P (consOption w) .none := by
  rcases consOption_cases w with ⟨w', -, hcons⟩ | ⟨hcons, -⟩
  · rw [hcons]
    trivial
  · rw [hcons]
    trivial

theorem cellOf_consOption (c : Value → Cell) : cellOf c (consOption w) (wrapSome w v) = cellOf c w v := by
  rcases consOption_cases w with ⟨w', rfl, -⟩ | ⟨hcons, hwrap⟩
  · rfl
  · rw [hcons, hwrap, cellOf]

theorem cellOf_consOption_none (c : Value → Cell) : cellOf c (consOption w) .none = .null := by
  rcases consOption_cases w with ⟨w', -, hcons⟩ | ⟨hcons, -⟩
  · rw [hcons]
    rfl
  · rw [hcons]
    rfl

theorem leavesOf_consOption : leavesOf (consOption w) (wrapSome w v) = leavesOf w v := by
  rcases consOption_cases w with ⟨w', rfl, -⟩ | ⟨hcons, hwrap⟩
  · rfl
  · rw [hcons, hwrap, leavesOf_some]

theorem leavesOf_consOption_none : leavesOf (consOption w) .none = [] := by
  rcases consOption_cases w with ⟨w', -, hcons⟩ | ⟨hcons, -⟩
  · rw [hcons]
    rfl
  · rw [hcons]
    rfl

end

/-! ## Values of the canonical word -/

section

variable {P Q : Value → Prop} {f : Value → Value}

theorem hasWord_canon (hf : ∀ u, P u → Q (f u)) : ∀ {w : List RawWrapper} {v : Value},
    HasWord P w v → HasWord Q (canonWord w) (canonValue f w v)
  | [], v, h => hf v h
  | .smartPtr :: w, .ptr v, h => hasWord_canon hf (w := w) (v := v) h
  | .option :: w, .none, _ => hasWord_consOption_none
  | .option :: w, .some v, h => hasWord_consOption.mpr (hasWord_canon hf (w := w) (v := v) h)
  | .vec :: w, .vec vs, h => by
    refine List.forall_mem_map.mpr fun u hu => ?_
    exact hasWord_canon hf (h u hu)

theorem cellOf_canon (c : Value → Cell) : ∀ {w : List RawWrapper} {v : Value},
    HasWord P w v → cellOf c (canonWord w) (canonValue f w v) = cellOf (fun u => c (f u)) w v
  | [], _, _ => rfl
  | .smartPtr :: w, .ptr v, h => cellOf_canon c (w := w) (v := v) h
  | .option :: w, .none, _ => cellOf_consOption_none c
  | .option :: w, .some v, h => (cellOf_consOption c).trans (cellOf_canon c (w := w) (v := v) h)
  | .vec :: w, .vec vs, h => by
    show Nested.list ((vs.map (canonValue f w)).map (cellOf c (canonWord w))) = Nested.list (vs.map _)
    rw [List.map_map]
    exact congrArg Nested.list (List.map_congr_left fun u hu => cellOf_canon c (h u hu))

theorem leavesOf_canon : ∀ {w : List RawWrapper} {v : Value},
    HasWord P w v → leavesOf (canonWord w) (canonValue f w v) = (leavesOf w v).map f
  | [], _, _ => rfl
  | .smartPtr :: w, .ptr v, h => by
    rw [leavesOf_ptr]
    exact leavesOf_canon (w := w) (v := v) h
  | .option :: w, .none, _ => leavesOf_consOption_none
  | .option :: w, .some v, h => by
    rw [leavesOf_some]
    exact leavesOf_consOption.trans (leavesOf_canon (w := w) (v := v) h)
  | .vec :: w, .vec vs, h => by
    show (vs.map (canonValue f w)).flatMap (leavesOf (canonWord w)) = (vs.flatMap (leavesOf w)).map f
    rw [List.flatMap_map, List.map_flatMap]
    exact List.flatMap_congr fun u hu => leavesOf_canon (h u hu)

/-- The lists keep their sizes. -/
theorem fitsWord_canon {max : Nat} {F : List Value → Prop} : ∀ {w : List RawWrapper} {vs : List Value},
    (∀ v ∈ vs, HasWord P w v) →
      (FitsWord max F (canonWord w) (vs.map (canonValue f w)) ↔ FitsWord max (fun us => F (us.map f)) w vs)
  | [], _, _ => Iff.rfl
  | s :: w, vs, h => by
    have hbelow : ∀ u ∈ vs.flatMap (below s), HasWord P w u := by
      intro u hu
      obtain ⟨v, hv, hu⟩ := List.mem_flatMap.mp hu
      exact hasWord_cons (h v hv) u hu
    have ih := @fitsWord_canon max F w _ hbelow
    rw [FitsWord, ← ih]
    cases s with
    | smartPtr =>
      have hvalues : vs.map (canonValue f (.smartPtr :: w)) = (vs.flatMap (below .smartPtr)).map (canonValue f w) := by
        rw [List.map_flatMap, List.map_eq_flatMap]
        refine List.flatMap_congr fun v hv => ?_
        have hv := h v hv
        cases v with
        | ptr u => rfl
        | _ => exact hv.elim
      have hptr : RawWrapper.smartPtr ≠ .vec := by decide
      rw [hvalues]
      exact (and_iff_right fun h => (hptr h).elim).symm
    | vec =>
      have hvalues : (vs.map (canonValue f (.vec :: w))).flatMap (below .vec) =
          (vs.flatMap (below .vec)).map (canonValue f w) := by
        rw [List.flatMap_map, List.map_flatMap]
        refine List.flatMap_congr fun v hv => ?_
        have hv := h v hv
        cases v with
        | vec us => rfl
        | _ => exact hv.elim
      show (_ → ((vs.map (canonValue f (.vec :: w))).flatMap (below .vec)).length ≤ max) ∧ _ ↔ _
      rw [hvalues, List.length_map]
    | option =>
      have hoption : ∀ {p : Prop}, RawWrapper.option = .vec → p := fun h => by cases h
      rw [and_iff_right hoption]
      show FitsWord max F (consOption (canonWord w)) _ ↔ _
      rcases consOption_cases (canonWord w) with ⟨w', hword, hcons⟩ | ⟨hcons, hwrap⟩
      · have hvalues : (vs.map (canonValue f (.option :: w))).flatMap (below .option) =
            ((vs.flatMap (below .option)).map (canonValue f w)).flatMap (below .option) := by
          rw [List.flatMap_map, List.map_flatMap, List.flatMap_assoc]
          refine List.flatMap_congr fun v hv => ?_
          have hv := h v hv
          cases v with
          | none => rfl
          | some u =>
            show below .option (wrapSome (canonWord w) (canonValue f w u)) = [canonValue f w u].flatMap (below .option)
            rw [hword, List.flatMap_singleton]
            rfl
          | _ => exact hv.elim
        rw [hcons, hword, FitsWord, FitsWord, hvalues]
      · have hvalues : (vs.map (canonValue f (.option :: w))).flatMap (below .option) =
            (vs.flatMap (below .option)).map (canonValue f w) := by
          rw [List.flatMap_map, List.map_flatMap]
          refine List.flatMap_congr fun v hv => ?_
          have hv := h v hv
          cases v with
          | none => rfl
          | some u =>
            show below .option (wrapSome (canonWord w) (canonValue f w u)) = _
            rw [hwrap]
            rfl
          | _ => exact hv.elim
        rw [hcons, FitsWord, hvalues]
        exact and_iff_right hoption

end

/-! ## Canonical words -/

/-- An `Option` lies below the last `Vec` of the word. -/
def wordLeafOption : List RawWrapper → Bool
  | [] => false
  | .option :: w => !w.contains .vec || wordLeafOption w
  | _ :: w => wordLeafOption w

theorem consOption_countP (w : List RawWrapper) : (consOption w).countP (· == .vec) = w.countP (· == .vec) := by
  rcases consOption_cases w with ⟨w', rfl, hcons⟩ | ⟨hcons, -⟩
  · rw [hcons]
  · rw [hcons]
    simp

/-- The `Vec`s stay. -/
theorem canonWord_countP : ∀ w : List RawWrapper, (canonWord w).countP (· == .vec) = w.countP (· == .vec)
  | [] => rfl
  | .smartPtr :: w => by simp [canonWord, canonWord_countP w]
  | .option :: w => by simp [canonWord, consOption_countP, canonWord_countP w]
  | .vec :: w => by simp [canonWord, canonWord_countP w]

theorem contains_vec (w : List RawWrapper) : w.contains .vec = decide (0 < w.countP (· == .vec)) := by
  rw [Bool.eq_iff_iff, List.contains_iff_mem, decide_eq_true_iff, List.countP_pos_iff]
  simp

theorem wordLeafOption_consOption (w : List RawWrapper) : wordLeafOption (consOption w) = wordLeafOption (.option :: w) := by
  rcases consOption_cases w with ⟨w', rfl, hcons⟩ | ⟨hcons, -⟩
  · rw [hcons]
    simp [wordLeafOption]
  · rw [hcons]

theorem canonWord_leafOption : ∀ w : List RawWrapper, wordLeafOption (canonWord w) = wordLeafOption w
  | [] => rfl
  | .smartPtr :: w => canonWord_leafOption w
  | .option :: w => by
    rw [canonWord, wordLeafOption_consOption, wordLeafOption, wordLeafOption, contains_vec, contains_vec, canonWord_countP,
      canonWord_leafOption w]
  | .vec :: w => canonWord_leafOption w

/-- No pointers are left. -/
theorem canonWord_pointers : ∀ w : List RawWrapper, .smartPtr ∉ canonWord w
  | [] => nofun
  | .smartPtr :: w => canonWord_pointers w
  | .option :: w => by
    have ih := canonWord_pointers w
    show .smartPtr ∉ consOption (canonWord w)
    rcases consOption_cases (canonWord w) with ⟨w', hword, hcons⟩ | ⟨hcons, -⟩
    · rw [hcons, ← hword]
      exact ih
    · rw [hcons]
      exact List.not_mem_cons_of_ne_of_not_mem nofun ih
  | .vec :: w => List.not_mem_cons_of_ne_of_not_mem nofun (canonWord_pointers w)

theorem canonWord_first (w : List RawWrapper) : ∀ ws, canonWord w ≠ .smartPtr :: ws := fun _ h =>
  canonWord_pointers w (h ▸ List.mem_cons_self)

/-! ## Ways to canonical values -/

/-- `b` leads from `row'` to the images of the leaves `a` leads to from `row`. -/
structure Walk.CarriesAt (g : Value → Value) (a b : Walk) (row row' : Value) : Prop where
  source : ∀ P, a.typed P row ↔ ∀ u ∈ a.leaves row, P u
  target : ∀ P, b.typed P row' ↔ ∀ u ∈ b.leaves row', P u
  leaves : b.leaves row' = (a.leaves row).map g
  cell : ∀ f, b.cell f row' = a.cell (fun u => f (g u)) row

structure Walk.Carries (g : Value → Value) (a b : Walk) (rows rows' : List Value) : Prop where
  depth : a.depth = b.depth
  each : List.Forall₂ (a.CarriesAt g b) rows rows'
  fits : a.fits (fun _ => True) rows ↔ b.fits (fun _ => True) rows'

/-- Where a value has a word at all, its leaves decide of what. -/
theorem hasWord_iff_leaves {P Q : Value → Prop} : ∀ {w : List RawWrapper} {v : Value}, HasWord Q w v →
    (HasWord P w v ↔ ∀ u ∈ leavesOf w v, P u)
  | [], v, _ => List.forall_mem_singleton.symm
  | .option :: _, .none, _ => iff_of_true trivial nofun
  | .option :: w, .some v, h => by
    rw [leavesOf_some]
    exact hasWord_iff_leaves (w := w) (v := v) h
  | .smartPtr :: w, .ptr v, h => by
    rw [leavesOf_ptr]
    exact hasWord_iff_leaves (w := w) (v := v) h
  | .vec :: w, .vec vs, h => by
    rw [leavesOf_vec, HasWord]
    simp only [List.mem_flatMap]
    constructor
    · rintro hP u ⟨v, hv, hu⟩
      exact (hasWord_iff_leaves (h v hv)).mp (hP v hv) u hu
    · intro hP v hv
      exact (hasWord_iff_leaves (h v hv)).mpr fun u hu => hP u ⟨v, hv, hu⟩

namespace Walk

variable {g : Value → Value} {a b c d : Walk} {rows rows' : List Value}

theorem Carries.read {f f' : Value → Option Value}
    (h : List.Forall₂ (fun row row' => ∃ x, f row = some x ∧ f' row' = some (g x)) rows rows') :
    (Walk.read f).Carries g (Walk.read f') rows rows' where
  depth := rfl
  each := h.imp fun row row' hrow => by
    obtain ⟨x, hx, hx'⟩ := hrow
    refine ⟨fun P => ?_, fun P => ?_, ?_, fun c => ?_⟩
    · simp [Walk.read, hx]
    · simp [Walk.read, hx']
    · simp [Walk.read, hx, hx']
    · simp [Walk.read, hx, hx']
  fits := Iff.rfl

/-- Past wrappers, and past the canonical ones. -/
theorem Carries.word {P : Value → Prop} {shape shape' : WrapperShape} (hword : shape'.word = canonWord shape.word)
    (hdepth : shape.vecDepth = shape'.vecDepth) {vs : List Value} (h : ∀ v ∈ vs, HasWord P shape.word v) :
    (Walk.word shape).Carries g (Walk.word shape') vs (vs.map (canonValue g shape.word)) where
  depth := hdepth
  each := by
    rw [List.forall₂_map_right_iff, List.forall₂_same]
    intro v hv
    have hv := h v hv
    refine ⟨fun Q => hasWord_iff_leaves hv, fun Q => ?_, ?_, fun f => ?_⟩
    · show HasWord Q shape'.word _ ↔ ∀ u ∈ leavesOf shape'.word _, Q u
      rw [hword]
      exact hasWord_iff_leaves (hasWord_canon (Q := fun _ => True) (fun _ _ => trivial) hv)
    · show leavesOf shape'.word _ = _
      rw [hword]
      exact leavesOf_canon hv
    · show cellOf f shape'.word _ = _
      rw [hword]
      exact cellOf_canon f hv
  fits := by
    show FitsWord _ _ shape.word vs ↔ FitsWord _ _ shape'.word _
    rw [hword, fitsWord_canon h]

/-- Further on, from what the first ways lead to. -/
theorem Carries.comp {h : Value → Value} (hab : a.Carries h b rows rows')
    (hcd : c.Carries g d (rows.flatMap a.leaves) ((rows.flatMap a.leaves).map h)) :
    (a.comp c).Carries g (b.comp d) rows rows' := by
  have hleaves : rows'.flatMap b.leaves = (rows.flatMap a.leaves).map h := by
    rw [List.map_flatMap]
    exact flatMap_related (hab.each.flip.imp fun _ _ hrow => hrow.leaves)
  have hat : ∀ row ∈ rows, ∀ u ∈ a.leaves row, c.CarriesAt g d u (h u) := by
    have heach := hcd.each
    rw [List.forall₂_map_right_iff, List.forall₂_same] at heach
    exact fun row hrow u hu => heach u (List.mem_flatMap.mpr ⟨row, hrow, hu⟩)
  refine ⟨?_, ?_, ?_⟩
  · show a.depth + c.depth = b.depth + d.depth
    rw [hab.depth, hcd.depth]
  · refine ((List.forall₂_and_left _ _).mpr ⟨hat, hab.each⟩).imp fun row row' hrow => ?_
    obtain ⟨hat, hrow⟩ := hrow
    refine ⟨fun P => ?_, fun P => ?_, ?_, fun f => ?_⟩
    · show a.typed (c.typed P) row ↔ ∀ u ∈ (a.leaves row).flatMap c.leaves, P u
      rw [hrow.source]
      simp only [List.mem_flatMap]
      exact ⟨fun hP u ⟨t, ht, hu⟩ => ((hat t ht).source P).mp (hP t ht) u hu,
        fun hP t ht => ((hat t ht).source P).mpr fun u hu => hP u ⟨t, ht, hu⟩⟩
    · show b.typed (d.typed P) row' ↔ ∀ u ∈ (b.leaves row').flatMap d.leaves, P u
      rw [hrow.target, hrow.leaves]
      simp only [List.mem_flatMap, List.mem_map]
      constructor
      · rintro hP u ⟨_, ⟨t, ht, rfl⟩, hu⟩
        exact ((hat t ht).target P).mp (hP _ ⟨t, ht, rfl⟩) u hu
      · rintro hP _ ⟨t, ht, rfl⟩
        exact ((hat t ht).target P).mpr fun u hu => hP u ⟨_, ⟨t, ht, rfl⟩, hu⟩
    · show (b.leaves row').flatMap d.leaves = ((a.leaves row).flatMap c.leaves).map g
      rw [hrow.leaves, List.flatMap_map, List.map_flatMap]
      exact List.flatMap_congr fun t ht => (hat t ht).leaves
    · show b.cell (d.cell f) row' = a.cell (c.cell fun u => f (g u)) row
      rw [hrow.cell]
      exact a.cell_congr _ _ row fun t ht => (hat t ht).cell f
  · show a.fits (c.fits _) rows ↔ b.fits (d.fits _) rows'
    rw [a.fits_iff, b.fits_iff, hab.fits, hleaves, hcd.fits]

/-- A value read, and past its wrappers. -/
theorem Carries.step {P : Value → Prop} {f f' : Value → Option Value} {shape shape' : WrapperShape}
    (hword : shape'.word = canonWord shape.word) (hdepth : shape.vecDepth = shape'.vecDepth)
    (h : List.Forall₂ (fun row row' => ∀ x, f row = some x → f' row' = some (canonValue g shape.word x)) rows rows')
    (ht : ∀ row ∈ rows, ((Walk.read f).comp (.word shape)).typed P row) :
    ((Walk.read f).comp (.word shape)).Carries g ((Walk.read f').comp (.word shape')) rows rows' := by
  refine Carries.comp (h := canonValue g shape.word) (Carries.read ?_) (Carries.word (P := P) hword hdepth fun v hv => ?_)
  · refine ((List.forall₂_and_left _ _).mpr ⟨ht, h⟩).imp fun row row' hrow => ?_
    obtain ⟨⟨x, hx, -⟩, hrow⟩ := hrow
    exact ⟨x, hx, hrow x hx⟩
  · obtain ⟨row, hrow, hv⟩ := List.mem_flatMap.mp hv
    obtain ⟨x, hx, hword⟩ := ht row hrow
    rw [List.mem_singleton.mp hv, hx]
    exact hword

/-- Ways to the same leaves. -/
theorem Carries.alike (h : a.Carries id b rows rows') : a.Alike b rows rows' where
  depth := h.depth
  each := h.each.imp fun row row' hrow => by
    refine ⟨fun P => ?_, fun f => (hrow.cell f).symm, ?_⟩
    · rw [hrow.source, hrow.target, hrow.leaves, List.map_id]
    · rw [hrow.leaves, List.map_id]
  fits := h.fits

end Walk

end DfDerive
