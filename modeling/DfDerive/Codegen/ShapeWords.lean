/-
  DfDerive.Codegen.ShapeWords — walked rows and wrapper words.

  The rows of `DfDerive.Codegen.ShapeWalkProofs` are described by normalized layers; here
  they are connected to the words the layers stand for, which is how a field type is
  written. Without a projection the rows are the cells of the word and fit as the word
  says (`scans_word`, `tree_word`, `fits_word`). A projection splits the layers in two: the
  parent's rows, and below each of their items the rows of the projected element
  (`scans_projected`, `tree_projected`).
-/

import DfDerive.Codegen.ShapeWalkProofs
import DfDerive.Lower.Compose

namespace DfDerive

open Lib

/-! ## Without a projection -/

def layersWord (ls : List VecLayerSpec) : List RawWrapper := ls.flatMap VecLayerSpec.word

theorem layersWord_cons (l : VecLayerSpec) (ls : List VecLayerSpec) :
    layersWord (l :: ls) = l.access.word ++ .vec :: layersWord ls := by
  simp [layersWord, VecLayerSpec.word]

theorem VecLayers.word_eq (s : VecLayers) : s.word = layersWord s.layers.toList ++ s.innerAccess.word := rfl

theorem hasWord_vec {P : Value → Prop} {w : List RawWrapper} {v : Value} :
    HasWord P (.vec :: w) v ↔ ∃ vs, v = .vec vs ∧ ∀ c ∈ vs, HasWord P w c := by
  constructor
  · intro h
    cases v with
    | vec vs => exact ⟨vs, rfl, h⟩
    | none => exact h.elim
    | some _ => exact h.elim
    | ptr _ => exact h.elim
    | scalar _ => exact h.elim
    | tuple _ => exact h.elim
    | struct _ => exact h.elim
  · rintro ⟨vs, rfl, h⟩
    exact h

theorem nextValue_none (cur : Nat) (ls : List VecLayerSpec) (c : Value) : nextValue none cur ls c = c := by
  cases ls <;> rfl

theorem scans_word {P : Value → Prop} : ∀ (ls : List VecLayerSpec) (cur : Nat) (v : Value),
    HasWord P (layersWord ls) v → Scans P none ls cur v := by
  intro ls
  induction ls with
  | nil => intro _ _ h; exact h
  | cons l ls ih =>
    intro cur v h
    rw [layersWord_cons, hasWord_append] at h
    refine HasWord.mono (fun u hu => ?_) h
    obtain ⟨vs, rfl, hvs⟩ := hasWord_vec.mp hu
    refine ⟨vs, rfl, fun c hc => ?_⟩
    rw [nextValue_none]
    refine ⟨?_, ih (cur + 1) c (hvs c hc)⟩
    cases ls with
    | nil => exact trivial
    | cons l' ls => exact ⟨_, rfl, ChainBase.ref _ _⟩

/-- The cells of a walked row are the cells of its word. -/
theorem tree_word {P : Value → Prop} (leaf : Value → Cell) : ∀ (ls : List VecLayerSpec) (cur : Nat) (v : Value),
    HasWord P (layersWord ls) v → (tree none ls cur v).bind leaf = cellOf leaf (layersWord ls) v := by
  intro ls
  induction ls with
  | nil => intro _ v _; simp [tree, layersWord, cellOf]
  | cons l ls ih =>
    intro cur v h
    rw [layersWord_cons] at h ⊢
    rw [hasWord_append] at h
    rw [cellOf_append]
    rcases HasWord.chain l.access.steps h with ⟨u, hu, hw, -, hcell⟩ | ⟨hn, -, -, hcell⟩
    · obtain ⟨vs, rfl, hvs⟩ := hasWord_vec.mp hw
      rw [show cellOf _ l.access.word v = _ from hcell _]
      simp only [tree, hu, below, Nested.bind_list, cellOf, List.map_map]
      congr 1
      refine List.map_congr_left fun c hc => ?_
      simp only [Function.comp_apply, nextValue_none]
      exact ih (cur + 1) c (hvs c hc)
    · rw [show cellOf _ l.access.word v = _ from hcell _]
      simp only [tree, hn, Nested.bind_null]

/-- Following a chain from every value of a column passes through no `Vec`. -/
theorem fitsWord_chain {max : Nat} {F : List Value → Prop} {w : List RawWrapper} : ∀ (steps : List AccessStep)
    (vs : List Value), FitsWord max F (AccessChain.word ⟨steps⟩ ++ w) vs ↔ FitsWord max F w (vs.filterMap (chainFold steps))
  | [], vs => by simp [AccessChain.word, chainFold]
  | st :: steps, vs => by
    have hb : (vs.flatMap (below st.word)).filterMap (chainFold steps) = vs.filterMap (chainFold (st :: steps)) := by
      rw [List.filterMap_flatMap]
      induction vs with
      | nil => rfl
      | cons v vs ih =>
        rw [List.flatMap_cons, List.filterMap_cons, ih]
        cases st <;> cases v <;> simp only [AccessStep.word, below, chainFold, List.filterMap_nil, List.nil_append,
          List.filterMap_cons] <;> split <;> simp_all
    have hstep : st.word ≠ .vec := by cases st <;> simp [AccessStep.word]
    show (st.word = .vec → _) ∧ FitsWord max F (AccessChain.word ⟨steps⟩ ++ w) _ ↔ _
    rw [fitsWord_chain steps, hb]
    exact and_iff_right fun h => absurd h hstep

theorem children_tree (l : VecLayerSpec) (ls : List VecLayerSpec) (cur : Nat) (vs : List Value) :
    children (vs.map (tree none (l :: ls) cur)) =
      ((vs.filterMap (chainFold l.access.steps)).flatMap (below .vec)).map (tree none ls (cur + 1)) := by
  induction vs with
  | nil => rfl
  | cons v vs ih =>
    simp only [children, List.map_cons, List.flatMap_cons] at ih ⊢
    rw [ih, List.filterMap_cons]
    cases hc : chainFold l.access.steps v with
    | none => simp [tree, hc, Nested.elems]
    | some u => simp [tree, hc, Nested.elems, nextValue_none]

/-- The values a chain leads to are its leaves. -/
theorem fitsWord_chain_nil {max : Nat} {F : List Value → Prop} (access : AccessChain) (vs : List Value) :
    FitsWord max F access.word vs ↔ F (vs.filterMap (chainFold access.steps)) := by
  have := @fitsWord_chain max F [] access.steps vs
  rwa [List.append_nil] at this

/-- The leaves of walked rows are those of the word. -/
theorem leaves_word : ∀ (ls : List VecLayerSpec) (cur : Nat) (vs : List Value),
    leaves ls (vs.map (tree none ls cur)) = vs.flatMap (leavesOf (layersWord ls))
  | [], cur, vs => by
    have : vals (vs.map (tree none [] cur)) = vs := by simp [vals, tree, Nested.val?, Function.comp_def]
    simpa [leaves, layersWord, leavesOf] using this
  | l :: ls, cur, vs => by
    simp only [leaves, children_tree, leaves_word ls (cur + 1), layersWord_cons]
    rw [List.flatMap_assoc]
    induction vs with
    | nil => rfl
    | cons v vs ih =>
      rw [List.flatMap_cons, ← ih, List.filterMap_cons, leavesOf_append,
        show leavesOf l.access.word v = _ from leavesOf_chain l.access.steps v]
      cases chainFold l.access.steps v with
      | none => rfl
      | some u => simp [leavesOf]

/-- Walked rows fit when their word does. -/
theorem fits_word {max : Nat} {F : List Value → Prop} : ∀ (ls : List VecLayerSpec) (cur : Nat) (vs : List Value),
    Fits max F ls (vs.map (tree none ls cur)) ↔ FitsWord max F (layersWord ls) vs
  | [], cur, vs => by
    have : vals (vs.map (tree none [] cur)) = vs := by simp [vals, tree, Nested.val?, Function.comp_def]
    simp only [Fits, this, layersWord, List.flatMap_nil, FitsWord]
  | l :: ls, cur, vs => by
    rw [layersWord_cons]
    show _ ↔ FitsWord max F (AccessChain.word ⟨l.access.steps⟩ ++ _) vs
    rw [fitsWord_chain]
    simp only [Fits, children_tree, List.length_map, FitsWord, true_implies]
    exact and_congr_right fun _ => fits_word ls (cur + 1) _

/-! ## With a projection -/

/-- The element a projection reads from a tuple. -/
def elementOf (p : LayerProjection) (t : Value) : Value := (projectValue p.path p.smartPtrDepth t).getD .none

/-- A tuple whose projected element satisfies `Q`. -/
def ProjectsTo (Q : Value → Prop) (p : LayerProjection) (t : Value) : Prop :=
  ∃ x, projectValue p.path p.smartPtrDepth t = some x ∧ Q x

theorem ProjectsTo.element {Q : Value → Prop} {p : LayerProjection} {t : Value} (h : ProjectsTo Q p t) :
    projectValue p.path p.smartPtrDepth t = some (elementOf p t) ∧ Q (elementOf p t) := by
  obtain ⟨x, hx, hq⟩ := h
  simp only [elementOf, hx, Option.getD_some]
  exact ⟨trivial, hq⟩

theorem nextValue_ne {p : LayerProjection} {cur : Nat} {ls : List VecLayerSpec} (h : ls ≠ [] → cur + 1 ≠ p.layer)
    (c : Value) : nextValue (some p) cur ls c = c := by
  cases ls with
  | nil => rfl
  | cons l ls => simp only [nextValue, innerValue, if_neg (h (by simp))]

/-- Layers none of whose transitions is the projection's are walked without it. -/
theorem tree_away {p : LayerProjection} : ∀ (ls : List VecLayerSpec) (cur : Nat) (v : Value),
    (∀ k, cur < k → k < cur + ls.length → k ≠ p.layer) → tree (some p) ls cur v = tree none ls cur v := by
  intro ls
  induction ls with
  | nil => intro _ _ _; rfl
  | cons l ls ih =>
    intro cur v h
    rw [List.length_cons] at h
    have hnext : ∀ c, nextValue (some p) cur ls c = c := nextValue_ne fun hne =>
      h (cur + 1) (by omega) (by have := List.length_pos_of_ne_nil hne; omega)
    simp only [tree, hnext, nextValue_none, ih (cur + 1) _ fun k h1 h2 => h k (by omega) (by omega)]

theorem scans_away {P : Value → Prop} {p : LayerProjection} : ∀ (ls : List VecLayerSpec) (cur : Nat) (v : Value),
    (∀ k, cur < k → k < cur + ls.length → k ≠ p.layer) → HasWord P (layersWord ls) v → Scans P (some p) ls cur v := by
  intro ls
  induction ls with
  | nil => intro _ _ _ h; exact h
  | cons l ls ih =>
    intro cur v h hv
    rw [List.length_cons] at h
    have hne : ls ≠ [] → cur + 1 ≠ p.layer := fun hne =>
      h (cur + 1) (by omega) (by have := List.length_pos_of_ne_nil hne; omega)
    rw [layersWord_cons, hasWord_append] at hv
    refine HasWord.mono (fun u hu => ?_) hv
    obtain ⟨vs, rfl, hvs⟩ := hasWord_vec.mp hu
    refine ⟨vs, rfl, fun c hc => ?_⟩
    rw [nextValue_ne hne]
    refine ⟨?_, ih (cur + 1) c (fun k h1 h2 => h k (by omega) (by omega)) (hvs c hc)⟩
    cases ls with
    | nil => exact trivial
    | cons l' ls =>
      have hcur := hne (by simp)
      refine ⟨.ref (.place c), by simp only [innerBind, if_neg hcur], ?_⟩
      simp only [innerValue, if_neg hcur]
      exact ChainBase.ref _ _

/-- The parent's rows, the element's rows below each of their items. -/
theorem tree_projected {p : LayerProjection} {els : List VecLayerSpec} (hels : els ≠ []) : ∀ (pls : List VecLayerSpec)
    (cur : Nat) (v : Value), pls ≠ [] → cur + pls.length = p.layer →
      tree (some p) (pls ++ els) cur v =
        (tree none pls cur v).bind fun c => tree none els p.layer (projectedValue p c) := by
  intro pls
  induction pls with
  | nil => intro _ _ h; exact absurd rfl h
  | cons l pls ih =>
    intro cur v _ hp
    rw [List.length_cons] at hp
    rw [List.cons_append]
    cases hc : chainFold l.access.steps v with
    | none => simp only [tree, hc, Nested.bind_null]
    | some u =>
      simp only [tree, hc, Nested.bind_list, List.map_map, nextValue_none]
      congr 1
      refine List.map_congr_left fun c _ => ?_
      simp only [Function.comp_apply]
      cases pls with
      | nil =>
        have hcur : cur + 1 = p.layer := by simpa using hp
        have hnext : nextValue (some p) cur els c = projectedValue p c := by
          cases els with
          | nil => exact absurd rfl hels
          | cons e els => simp only [nextValue, innerValue, hcur, ite_true]
        rw [List.nil_append, hnext, hcur, tree_away els p.layer _ fun k hk _ => by omega]
        simp only [tree, Nested.bind_val]
      | cons l' pls =>
        have hne : l' :: pls ++ els ≠ [] → cur + 1 ≠ p.layer := fun _ => by simp at hp; omega
        rw [nextValue_ne hne]
        exact ih (cur + 1) c (by simp) (by simp at hp ⊢; omega)

theorem scans_projected {P : Value → Prop} {p : LayerProjection} {e : VecLayerSpec} {els : List VecLayerSpec} :
    ∀ (pls : List VecLayerSpec) (cur : Nat) (v : Value), pls ≠ [] → cur + pls.length = p.layer →
      HasWord (fun c => (∃ o, projectedLayerBind (.ref (.place c)) p = .ok o ∧
          ChainBase e.access.steps o (projectedValue p c)) ∧
        HasWord P (layersWord (e :: els)) (projectedValue p c)) (layersWord pls) v →
      Scans P (some p) (pls ++ e :: els) cur v := by
  intro pls
  induction pls with
  | nil => intro _ _ h; exact absurd rfl h
  | cons l pls ih =>
    intro cur v _ hp hv
    rw [List.length_cons] at hp
    rw [layersWord_cons l pls, hasWord_append] at hv
    rw [List.cons_append]
    refine HasWord.mono (fun u hu => ?_) hv
    obtain ⟨vs, rfl, hvs⟩ := hasWord_vec.mp hu
    refine ⟨vs, rfl, fun c hc => ?_⟩
    have hcv := hvs c hc
    cases pls with
    | nil =>
      have hcur : cur + 1 = p.layer := by simpa using hp
      obtain ⟨⟨o, ho, hbase⟩, hword⟩ := hcv
      simp only [List.nil_append, Binds, nextValue, innerBind, innerValue, hcur, ite_true]
      refine ⟨⟨o, ho, hbase⟩, scans_away (e :: els) p.layer _ (fun k hk _ => by omega) hword⟩
    | cons l' pls =>
      have hcur : cur + 1 ≠ p.layer := by simp at hp; omega
      rw [nextValue_ne fun _ => hcur]
      refine ⟨⟨.ref (.place c), by simp only [innerBind, if_neg hcur], ?_⟩, ih (cur + 1) c (by simp) (by simp at hp ⊢; omega) hcv⟩
      simp only [innerValue, if_neg hcur]
      exact ChainBase.ref _ _

/-! ## The seam -/

theorem projectFrom_eq {path depth : Nat} {o : Operand} {t x : Value} (ho : o.RefTo t)
    (hx : projectValue path depth t = some x) : projectFrom path depth o = .ok (.ref (.place x)) := by
  obtain ⟨q, rfl, hq⟩ := ho
  cases t with
  | tuple vs =>
    obtain ⟨v, hv, hd⟩ := Option.bind_eq_some_iff.mp hx
    have hidx : q.tupleIndex path = .ok (.place v) := by simp only [Operand.tupleIndex, hq, hv]
    have hderef := deref_iterate depth v x hd
    rw [projectFrom, show (Operand.ref q).deref = .ok q from rfl]
    simp only [ok_bind, hidx, derefSmartPtrs, hderef]
  | none => cases hx
  | some _ => cases hx
  | ptr _ => cases hx
  | scalar _ => cases hx
  | vec _ => cases hx
  | struct _ => cases hx

/-- The word of the element below the parent's innermost `Option`s. -/
def seamWord (parentAccess : AccessChain) (w : List RawWrapper) : List RawWrapper :=
  if 0 < parentAccess.optionLayers then .option :: w else w

theorem seamWord_append (parentAccess : AccessChain) (w w' : List RawWrapper) :
    seamWord parentAccess (w ++ w') = seamWord parentAccess w ++ w' := by
  unfold seamWord
  split <;> rfl

theorem word_prependParentOptionAccess (parentAccess access : AccessChain) :
    (prependParentOptionAccess parentAccess access).word = seamWord parentAccess access.word := by
  unfold prependParentOptionAccess seamWord
  split <;> rfl

/-- What the projection makes of an item: the element of the tuple, or nothing when the
    tuple is absent. -/
theorem projectedValue_cases {Q : Value → Prop} {p : LayerProjection} {c : Value}
    (h : HasWord (ProjectsTo Q p) p.parentAccess.word c) :
    (∃ t, chainFold p.parentAccess.steps c = some t ∧ ProjectsTo Q p t ∧
      (∀ leaf, cellOf leaf p.parentAccess.word c = leaf t) ∧
      projectedValue p c = if p.parentAccess.optionLayers = 0 then elementOf p t else .some (elementOf p t)) ∨
    (chainFold p.parentAccess.steps c = none ∧ 0 < p.parentAccess.optionLayers ∧
      (∀ leaf, cellOf leaf p.parentAccess.word c = .null) ∧ projectedValue p c = .none) := by
  rcases HasWord.chain p.parentAccess.steps h with ⟨t, ht, hp, -, hcell⟩ | ⟨hn, hopt, -, hcell⟩
  · refine Or.inl ⟨t, ht, hp, hcell, ?_⟩
    simp only [projectedValue, ht]
    rfl
  · refine Or.inr ⟨hn, optionLayers_pos.mpr hopt, hcell, ?_⟩
    simp only [projectedValue, hn]

theorem projectedValue_word {P : Value → Prop} {w : List RawWrapper} {p : LayerProjection} {c : Value}
    (h : HasWord (ProjectsTo (HasWord P w) p) p.parentAccess.word c) :
    HasWord P (seamWord p.parentAccess w) (projectedValue p c) ∧ ∀ leaf,
      cellOf leaf (seamWord p.parentAccess w) (projectedValue p c) =
        cellOf (fun t => cellOf leaf w (elementOf p t)) p.parentAccess.word c := by
  rcases projectedValue_cases h with ⟨t, -, hp, hcell, hv⟩ | ⟨-, hpos, hcell, hv⟩
  · have hx := hp.element.2
    rw [hv]
    unfold seamWord
    by_cases h0 : p.parentAccess.optionLayers = 0
    · simp only [h0, Nat.lt_irrefl, ite_true, ite_false, hcell]
      exact ⟨hx, fun _ => trivial⟩
    · simp only [if_neg h0, if_pos (Nat.pos_of_ne_zero h0), hcell, cellOf]
      exact ⟨hx, fun _ => trivial⟩
  · rw [hv]
    simp only [seamWord, if_pos hpos, hcell, cellOf]
    exact ⟨trivial, fun _ => trivial⟩

/-- The binding of a projected layer is a base its chain can start from. -/
theorem projectedLayerBind_spec {Q : Value → Prop} {p : LayerProjection} {c : Value} {access : AccessChain}
    (h : HasWord (ProjectsTo Q p) p.parentAccess.word c) (hs : ∀ c', access.steps ≠ .smartPtr :: c') :
    ∃ o, projectedLayerBind (.ref (.place c)) p = .ok o ∧
      ChainBase (prependParentOptionAccess p.parentAccess access).steps o (projectedValue p c) := by
  by_cases hpos : 0 < p.parentAccess.optionLayers
  · have hne : p.parentAccess.isEmpty = false := by
      have := optionLayers_pos.mp hpos
      cases hst : p.parentAccess.steps with
      | nil => rw [hst] at this; cases this
      | cons _ _ => simp [AccessChain.isEmpty, hst]
    obtain ⟨e, he, hold⟩ := accessChainToOptionRef_spec hpos (ChainBase.ref _ c) h
    have hbase : projectionBaseToRef (.ref (.place c)) p.parentAccess = .ok e := by
      rw [projectionBaseToRef, hne]
      simp only [Bool.false_eq_true, ite_false, if_pos hpos, he]
    have h0 : p.parentAccess.optionLayers ≠ 0 := by omega
    simp only [projectedLayerBind, hbase, ok_bind, if_neg h0, prependParentOptionAccess, if_pos hpos]
    rcases projectedValue_cases h with ⟨t, ht, hp, -, hv⟩ | ⟨hn, -, -, hv⟩
    · rw [ht] at hold
      obtain ⟨q, rfl, href⟩ := hold
      refine ⟨.some (.ref (.place (elementOf p t))), ?_, ?_⟩
      · simp only [Operand.map, projectFrom_eq href hp.element.1, ok_bind]
      · rw [hv, if_neg h0]
        exact ChainBase.holds rfl (Operand.refTo_place _) hs
    · rw [hn] at hold
      have : e = .none := hold
      subst this
      refine ⟨.none, rfl, ?_⟩
      rw [hv]
      exact ChainBase.absent rfl
  · have h0 : p.parentAccess.optionLayers = 0 := by omega
    have hbare : .option ∉ p.parentAccess.steps := fun hc => hpos (optionLayers_pos.mpr hc)
    have hbase : ∃ e, projectionBaseToRef (.ref (.place c)) p.parentAccess = .ok e ∧
        ∃ t, chainFold p.parentAccess.steps c = some t ∧ e.RefTo t := by
      unfold projectionBaseToRef
      obtain ⟨-, e, he, hval⟩ := accessChainToRef_spec (ChainBase.ref _ c) h
      obtain ⟨t, ht, href⟩ := hval.bare hbare
      split
      · rename_i hemp
        refine ⟨_, rfl, c, ?_, Operand.refTo_place c⟩
        cases hst : p.parentAccess.steps with
        | nil => rfl
        | cons _ _ => simp [AccessChain.isEmpty, hst] at hemp
      · exact ⟨e, he, t, ht, href⟩
    obtain ⟨e, he, t, ht, href⟩ := hbase
    simp only [projectedLayerBind, he, ok_bind, h0, ite_true, prependParentOptionAccess, Nat.lt_irrefl, ite_false]
    rcases projectedValue_cases h with ⟨t', ht', hp, -, hv⟩ | ⟨-, hpos', -, -⟩
    · rw [ht] at ht'
      cases ht'
      refine ⟨_, projectFrom_eq href hp.element.1, ?_⟩
      rw [hv, h0]
      exact ChainBase.ref _ _
    · omega

/-- The elements projected out of the tuples that are there. -/
theorem projected_elements {P : Value → Prop} {p : LayerProjection} : ∀ {cs : List Value},
    (∀ c ∈ cs, HasWord (ProjectsTo P p) p.parentAccess.word c) →
      (if 0 < p.parentAccess.optionLayers then (cs.map (projectedValue p)).flatMap (below .option)
        else cs.map (projectedValue p)) = (cs.filterMap (chainFold p.parentAccess.steps)).map (elementOf p)
  | [], _ => by split <;> rfl
  | c :: cs, h => by
    have ih := projected_elements fun c hc => h c (List.mem_cons_of_mem _ hc)
    rw [List.filterMap_cons]
    rcases projectedValue_cases (h c List.mem_cons_self) with ⟨t, ht, -, -, hv⟩ | ⟨hn, hpos, -, hv⟩
    · simp only [ht, List.map_cons, ← ih]
      by_cases hpos : 0 < p.parentAccess.optionLayers
      · simp only [if_pos hpos, hv, if_neg (Nat.pos_iff_ne_zero.mp hpos), List.flatMap_cons, below,
          List.singleton_append]
      · simp only [if_neg hpos, hv, if_pos (Nat.eq_zero_of_not_pos hpos)]
    · simp only [hn, ← ih]
      simp only [if_pos hpos, List.map_cons, hv, List.flatMap_cons, below, List.nil_append]

theorem fits_projected {max : Nat} {F : List Value → Prop} {P : Value → Prop} {w : List RawWrapper} {p : LayerProjection}
    {cs : List Value} (h : ∀ c ∈ cs, HasWord (ProjectsTo P p) p.parentAccess.word c) :
    FitsWord max F (seamWord p.parentAccess w) (cs.map (projectedValue p)) ↔
      FitsWord max (fun ts => FitsWord max F w (ts.map (elementOf p))) p.parentAccess.word cs := by
  rw [fitsWord_chain_nil, ← projected_elements h]
  unfold seamWord
  split
  · show (RawWrapper.option = RawWrapper.vec → _) ∧ _ ↔ _
    exact and_iff_right fun h => by cases h
  · rfl

theorem leaves_projected {P : Value → Prop} {w : List RawWrapper} {p : LayerProjection} {cs : List Value}
    (h : ∀ c ∈ cs, HasWord (ProjectsTo P p) p.parentAccess.word c) :
    (cs.map (projectedValue p)).flatMap (leavesOf (seamWord p.parentAccess w)) =
      ((cs.flatMap (leavesOf p.parentAccess.word)).map (elementOf p)).flatMap (leavesOf w) := by
  have hchain : cs.flatMap (leavesOf p.parentAccess.word) = cs.filterMap (chainFold p.parentAccess.steps) := by
    rw [show cs.flatMap (leavesOf p.parentAccess.word) = _ from leavesOf_chains _ cs, List.reduceOption,
      List.filterMap_map]
    rfl
  rw [hchain, ← projected_elements h]
  unfold seamWord
  split
  · rw [List.flatMap_assoc]
    rfl
  · rfl

/-! ## Batches -/

section

variable {P : Value → Prop} {read : Operand → Value} {items : List Operand} {max : Nat} {F : List Value → Prop}

/-- Rows whose raw items read as the cells of the inner chain are the cells of the word. -/
theorem rows_word (leaf : Value → Cell) {raw : Value → Cell} {shape : VecLayers}
    (h : ∀ it ∈ items, HasWord P shape.word (read it))
    (hraw : ∀ v, HasWord P shape.innerAccess.word v → raw v = cellOf leaf shape.innerAccess.word v) :
    (rowsOf none shape read items).map (Nested.bind raw) = items.map fun it => cellOf leaf shape.word (read it) := by
  rw [rowsOf, List.map_map]
  refine List.map_congr_left fun it hit => ?_
  have hv := h it hit
  rw [VecLayers.word_eq, hasWord_append] at hv
  rw [VecLayers.word_eq, cellOf_append]
  exact (tree_word _ _ _ _ hv).trans (cellOf_congr fun u hu => hraw u (HasWord.leaves hv u hu))

theorem rows_fits {shape : VecLayers} :
    Fits max (FitsWord max F shape.innerAccess.word) shape.layers.toList (rowsOf none shape read items) ↔
      FitsWord max F shape.word (items.map read) := by
  rw [VecLayers.word_eq, fitsWord_append, ← fits_word _ 0, rowsOf, List.map_map]
  rfl

/-- `access` reads from every item the value `read` gives, as a base for the chain `steps`. -/
def Accesses (access : Operand → Run Operand) (read : Operand → Value) (steps : List AccessStep) (items : List Operand) :
    Prop :=
  ∀ it ∈ items, ∃ o, access it = .ok o ∧ ChainBase steps (.ref o) (read it)

theorem walks_word {Q : Value → Prop} {shape : VecLayers} {access : Operand → Run Operand}
    (ha : Accesses access read shape.layers.first.access.steps items)
    (ht : ∀ it ∈ items, HasWord P shape.word (read it)) (hq : ∀ v, HasWord P shape.innerAccess.word v → Q v) :
    Walks Q none shape access read items := by
  intro it hit
  obtain ⟨o, ho, hb⟩ := ha it hit
  have hv := ht it hit
  rw [VecLayers.word_eq, hasWord_append] at hv
  exact ⟨o, ho, hb, scans_word _ _ _ (HasWord.mono hq hv)⟩

/-! ### Below a parent with `Vec` layers -/

/-- A projection that starts where the parent's layers end. -/
structure Seam (p : LayerProjection) (parent : VecLayers) : Prop where
  layer : p.layer = parent.depth
  access : p.parentAccess = parent.innerAccess

theorem layers_compose (parent element : VecLayers) :
    (composeVecParentWithElement parent (.vec element)).layers.toList = parent.layers.toList ++
      ⟨element.layers.first.optionLayersAbove + parent.innerOptionLayers,
        prependParentOptionAccess parent.innerAccess element.layers.first.access⟩ :: element.layers.rest := rfl

theorem layersWord_seam (parent element : VecLayers) (n : Nat) :
    layersWord (⟨n, prependParentOptionAccess parent.innerAccess element.layers.first.access⟩ :: element.layers.rest) =
      seamWord parent.innerAccess (layersWord element.layers.toList) := by
  rw [NonEmpty.toList, layersWord_cons, layersWord_cons, word_prependParentOptionAccess]
  unfold seamWord
  split <;> rfl

variable {parent element : VecLayers} {p : LayerProjection}

theorem Seam.parentLayers (hp : Seam p parent) : parent.layers.toList ≠ [] ∧ 0 + parent.layers.toList.length = p.layer := by
  refine ⟨by simp [NonEmpty.toList], ?_⟩
  rw [hp.layer, NonEmpty.length_toList, VecLayers.depth, Nat.zero_add]

theorem projectsTo_layers {t : Value} (h : ProjectsTo (HasWord P element.word) p t) :
    ProjectsTo (HasWord (HasWord P element.innerAccess.word) (layersWord element.layers.toList)) p t := by
  obtain ⟨x, hx, hw⟩ := h
  rw [VecLayers.word_eq, hasWord_append] at hw
  exact ⟨x, hx, hw⟩

/-- The composed shape's rows are the parent's, with the element's below each tuple. -/
theorem rows_compose (leaf : Value → Cell) {raw : Value → Cell} (hp : Seam p parent)
    (h : ∀ it ∈ items, HasWord (ProjectsTo (HasWord P element.word) p) parent.word (read it))
    (hraw : ∀ v, HasWord P element.innerAccess.word v → raw v = cellOf leaf element.innerAccess.word v) :
    (rowsOf (some p) (composeVecParentWithElement parent (.vec element)) read items).map (Nested.bind raw) =
      items.map fun it => cellOf (fun t => cellOf leaf element.word (elementOf p t)) parent.word (read it) := by
  rw [rowsOf, List.map_map]
  refine List.map_congr_left fun it hit => ?_
  have hv := h it hit
  rw [VecLayers.word_eq parent, hasWord_append] at hv
  obtain ⟨hne, hlen⟩ := hp.parentLayers
  simp only [Function.comp_apply, layers_compose]
  rw [tree_projected (by simp) _ 0 _ hne hlen, Nested.bind_bind, tree_word _ _ _ _ hv, VecLayers.word_eq parent,
    cellOf_append]
  refine cellOf_congr fun c hc => ?_
  have hcw := HasWord.leaves hv c hc
  rw [← hp.access] at hcw
  obtain ⟨htyped, -⟩ := projectedValue_word (HasWord.mono (fun t ht => projectsTo_layers ht) hcw)
  obtain ⟨-, hcell⟩ := projectedValue_word hcw
  rw [hp.access] at htyped hcell
  rw [← layersWord_seam parent element (element.layers.first.optionLayersAbove + parent.innerOptionLayers)] at htyped
  rw [tree_word _ _ _ _ htyped, ← hcell, VecLayers.word_eq, seamWord_append, cellOf_append, ← layersWord_seam]
  exact cellOf_congr fun u hu => hraw u (HasWord.leaves htyped u hu)

/-- The composed shape's rows, item by item of the parent's innermost lists. -/
theorem rowsOf_compose (hp : Seam p parent) :
    rowsOf (some p) (composeVecParentWithElement parent (.vec element)) read items =
      (rowsOf none parent read items).map (Nested.bind fun c =>
        tree none (⟨element.layers.first.optionLayersAbove + parent.innerOptionLayers,
          prependParentOptionAccess parent.innerAccess element.layers.first.access⟩ :: element.layers.rest)
          p.layer (projectedValue p c)) := by
  obtain ⟨hne, hlen⟩ := hp.parentLayers
  rw [rowsOf, rowsOf, List.map_map]
  refine List.map_congr_left fun it _ => ?_
  rw [layers_compose]
  exact tree_projected (by simp) _ 0 _ hne hlen

section

variable {Q : Value → Prop}

theorem scans_field (h : ∀ it ∈ items, HasWord Q parent.word (read it)) :
    ∀ it ∈ items, Scans (HasWord Q parent.innerAccess.word) none parent.layers.toList 0 (read it) := by
  intro it hit
  have hv := h it hit
  rw [VecLayers.word_eq parent, hasWord_append] at hv
  exact scans_word _ _ _ hv

theorem shaped_field (hn : parent.Nullable) (h : ∀ it ∈ items, HasWord Q parent.word (read it)) :
    ∀ t ∈ rowsOf none parent read items, Shaped VecLayerSpec.hasOuterValidity parent.layers.toList t := by
  intro t ht
  obtain ⟨it, hit, rfl⟩ := List.mem_map.mp ht
  exact tree_shaped _ _ _ hn.layers (scans_field h it hit)

/-- The items of the innermost lists of a field have the type of its inner chain. -/
theorem items_field (h : ∀ it ∈ items, HasWord Q parent.word (read it)) :
    ∀ c ∈ leaves parent.layers.toList (rowsOf none parent read items), HasWord Q parent.innerAccess.word c := by
  refine AllLeaves.mem fun t ht => ?_
  obtain ⟨it, hit, rfl⟩ := List.mem_map.mp ht
  exact tree_leaves _ _ _ (scans_field h it hit)

end

theorem leaves_field (shape : VecLayers) (read : Operand → Value) (items : List Operand) :
    leaves shape.layers.toList (rowsOf none shape read items) =
      (items.map read).flatMap (leavesOf (layersWord shape.layers.toList)) := by
  rw [← leaves_word _ 0, List.map_map]
  rfl

theorem fits_compose (hn : parent.Nullable) (hp : Seam p parent)
    (h : ∀ it ∈ items, HasWord (ProjectsTo (HasWord P element.word) p) parent.word (read it)) :
    Fits max (FitsWord max F element.innerAccess.word) (composeVecParentWithElement parent (.vec element)).layers.toList
        (rowsOf (some p) (composeVecParentWithElement parent (.vec element)) read items) ↔
      FitsWord max (fun ts => FitsWord max F element.word (ts.map (elementOf p))) parent.word (items.map read) := by
  rw [rowsOf_compose hp, layers_compose, fits_bind _ _ (shaped_field hn h), ← rows_fits]
  refine fits_congr _ _ ?_
  have htyped := items_field h
  rw [← hp.access] at htyped
  generalize leaves parent.layers.toList (rowsOf none parent read items) = cs at htyped
  have hcomp := @fits_word max (FitsWord max F element.innerAccess.word)
    (⟨element.layers.first.optionLayersAbove + parent.innerOptionLayers,
      prependParentOptionAccess parent.innerAccess element.layers.first.access⟩ :: element.layers.rest)
    p.layer (cs.map (projectedValue p))
  rw [List.map_map, layersWord_seam, ← fitsWord_append, ← seamWord_append, ← VecLayers.word_eq, ← hp.access] at hcomp
  rw [← hp.access]
  exact hcomp.trans (fits_projected htyped)

/-- The leaves below the composed shape are those of the projected elements, in order. -/
theorem leaves_compose (hn : parent.Nullable) (hp : Seam p parent)
    (h : ∀ it ∈ items, HasWord (ProjectsTo (HasWord P element.word) p) parent.word (read it)) :
    (leaves (composeVecParentWithElement parent (.vec element)).layers.toList
        (rowsOf (some p) (composeVecParentWithElement parent (.vec element)) read items)).flatMap
          (leavesOf element.innerAccess.word) =
      (((items.map read).flatMap (leavesOf parent.word)).map (elementOf p)).flatMap (leavesOf element.word) := by
  have htyped := items_field h
  rw [← hp.access] at htyped
  have helems := leaves_projected (w := element.word) htyped
  rw [rowsOf_compose hp, layers_compose, leaves_bind _ _ (shaped_field hn h)]
  have hword := leaves_word
    (⟨element.layers.first.optionLayersAbove + parent.innerOptionLayers,
      prependParentOptionAccess parent.innerAccess element.layers.first.access⟩ :: element.layers.rest)
    p.layer ((leaves parent.layers.toList (rowsOf none parent read items)).map (projectedValue p))
  rw [List.map_map, layersWord_seam] at hword
  have hparent : (items.map read).flatMap (leavesOf parent.word) =
      (leaves parent.layers.toList (rowsOf none parent read items)).flatMap (leavesOf p.parentAccess.word) := by
    rw [leaves_field, List.flatMap_assoc, VecLayers.word_eq parent, hp.access]
    exact List.flatMap_congr fun v _ => leavesOf_append _ _ v
  rw [hparent, ← helems]
  refine (congrArg (List.flatMap _) hword).trans ?_
  rw [List.flatMap_assoc, hp.access, VecLayers.word_eq element, seamWord_append]
  exact List.flatMap_congr fun v _ => (leavesOf_append _ _ v).symm

/-- The composed shape walks a field of tuples. -/
theorem walks_compose {Q : Value → Prop} {access : Operand → Run Operand} (hp : Seam p parent)
    (hfirst : ∀ c', element.layers.first.access.steps ≠ .smartPtr :: c')
    (ha : Accesses access read parent.layers.first.access.steps items)
    (h : ∀ it ∈ items, HasWord (ProjectsTo (HasWord P element.word) p) parent.word (read it))
    (hq : ∀ v, HasWord P element.innerAccess.word v → Q v) :
    Walks Q (some p) (composeVecParentWithElement parent (.vec element)) access read items := by
  obtain ⟨hne, hlen⟩ := hp.parentLayers
  intro it hit
  obtain ⟨o, ho, hb⟩ := ha it hit
  refine ⟨o, ho, hb, ?_⟩
  have hv := h it hit
  rw [VecLayers.word_eq parent, hasWord_append, ← hp.access] at hv
  rw [layers_compose]
  refine scans_projected _ _ _ hne hlen (HasWord.mono (fun c hc => ?_) hv)
  have hbind := projectedLayerBind_spec hc hfirst
  obtain ⟨htyped, -⟩ := projectedValue_word (HasWord.mono (fun t ht => projectsTo_layers ht) hc)
  rw [hp.access] at hbind htyped
  refine ⟨hbind, ?_⟩
  rw [layersWord_seam]
  exact HasWord.mono hq htyped

end

end DfDerive
