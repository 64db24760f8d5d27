/-
  DfDerive.Codegen.ProjectedProofs — columns of tuples below `Vec` layers (see `DfDerive.Codegen.Projected`).

  Whatever the parent's and the element's wrappers are, the composed shape with its
  projection follows the walk past the parent's wrappers, to the element, and past the
  element's wrappers (`leafWalk_element`): for an element with `Vec` layers the projection
  lies between two layers, for any other one it lies in the leaf expression
  (`projectedLeafExpr_reads`). The emissions of projected columns follow.
-/

import DfDerive.Codegen.LeafWalk
import DfDerive.Codegen.Projected

namespace DfDerive

open Lib

/-! ## Composed shapes -/

theorem compose_leaf (parent : VecLayers) (s : LeafShape) :
    composeVecParentWithElement parent (.leaf s) =
      ⟨parent.layers, parent.innerOptionLayers + s.optionLayers, concatAccessChains parent.innerAccess s.access⟩ := by
  cases s with
  | bare => simp [composeVecParentWithElement, LeafShape.optionLayers, LeafShape.access, concatAccessChains, AccessChain.empty]
  | optional n access => rfl

theorem optionLayers_concat (a b : AccessChain) :
    (concatAccessChains a b).optionLayers = a.optionLayers + b.optionLayers := by
  simp [concatAccessChains, AccessChain.optionLayers]

theorem LeafShape.Counted.optionLayers {s : LeafShape} (h : s.Counted) : s.optionLayers = s.access.optionLayers := by
  cases s with
  | bare => rfl
  | optional n access => exact h.1

/-- The counts of a composed shape decide what its chains decide. -/
theorem composeVecParentWithElement_nullable {parent : VecLayers} (element : WrapperShape) (hn : parent.Nullable)
    (he : element.Counted) : (composeVecParentWithElement parent element).Nullable := by
  cases element with
  | leaf s =>
    rw [compose_leaf]
    refine ⟨hn.outer, ?_⟩
    have hs : s.optionLayers = s.access.optionLayers := he.optionLayers
    have := hn.inner
    simp only [optionLayers_concat]
    omega
  | vec element =>
    have he : element.Nullable := he
    refine ⟨fun l hl => ?_, he.inner⟩
    rw [layers_compose] at hl
    rcases List.mem_append.mp hl with hl | hl
    · exact hn.outer l hl
    · rcases List.mem_cons.mp hl with rfl | hl
      · have hfirst := he.outer _ List.mem_cons_self
        have hinner := hn.inner
        simp only [prependParentOptionAccess]
        split
        · simp only [prependOptionAccess, AccessChain.optionLayers_cons_option]
          omega
        · have h0 : ¬ 0 < parent.innerOptionLayers := fun h => by
            rw [hinner] at h
            contradiction
          omega
      · exact he.outer l (List.mem_cons_of_mem _ hl)

theorem composeVec_depth (parent : VecLayers) (element : WrapperShape) :
    (composeVecParentWithElement parent element).depth = parent.depth + element.vecDepth := by
  cases element with
  | leaf s => rw [compose_leaf]; rfl
  | vec layers =>
    rw [VecLayers.depth, ← NonEmpty.length_toList, layers_compose, List.length_append, NonEmpty.length_toList]
    simp only [List.length_cons, NonEmpty.len, VecLayers.depth, WrapperShape.vecDepth]
    omega

/-! ## Projection at the leaf -/

/-- The leaf of an element without `Vec` layers, from an item of the parent's innermost lists. -/
def projectedLeaf (p : LayerProjection) (elementAccess : AccessChain) (raw : Value) : Option Value :=
  (chainFold p.parentAccess.steps raw).bind fun t => chainFold elementAccess.steps (elementOf p t)

theorem elementRef_holds {P : Value → Prop} {access : AccessChain} {x : Value} (h : HasWord P access.word x)
    (hpos : 0 < access.optionLayers) :
    ∃ e, accessChainToOptionRef (.ok (.ref (.place x))) access = .ok e ∧ e.Holds (chainFold access.steps x) :=
  accessChainToOptionRef_spec hpos (.ref _ x) h

theorem elementRef_bare {P : Value → Prop} {access : AccessChain} {x : Value} (h : HasWord P access.word x)
    (hpos : ¬ 0 < access.optionLayers) :
    ∃ e u, (accessChainToRef (.ok (.ref (.place x))) access).expr = .ok e ∧ chainFold access.steps x = some u ∧
      e.RefTo u := by
  obtain ⟨-, e, he, hval⟩ := accessChainToRef_spec (.ref _ x) h
  obtain ⟨u, hu, href⟩ := hval.bare fun hmem => hpos (optionLayers_pos.mpr hmem)
  exact ⟨e, u, he, hu, href⟩

theorem leafReads_of_holds {o : Operand} {x : Option Value} (h : o.Holds x) : LeafReads true o x := by
  rw [LeafReads, if_pos rfl]
  exact h.matchesTo

/-- The leaf expression of a projected column finds the leaf of the element. -/
theorem projectedLeafExpr_reads {P : Value → Prop} {p : LayerProjection} {elementAccess : AccessChain}
    {hasInnerOption : Bool}
    (hopt : hasInnerOption = true ↔ 0 < p.parentAccess.optionLayers + elementAccess.optionLayers) {raw : Value}
    (h : HasWord (ProjectsTo (HasWord P elementAccess.word) p) p.parentAccess.word raw) :
    ∃ o, projectedLeafExpr p elementAccess (.ref (.place raw)) = .ok o ∧
      LeafReads hasInnerOption o (projectedLeaf p elementAccess raw) := by
  unfold projectedLeafExpr projectedLeaf
  by_cases hparent : 0 < p.parentAccess.optionLayers
  · obtain rfl : hasInnerOption = true := hopt.mpr (by omega)
    obtain ⟨e, he, hholds⟩ := accessChainToOptionRef_spec hparent (.ref _ raw) h
    simp only [if_pos hparent, he, ok_bind]
    rcases HasWord.chain p.parentAccess.steps h with ⟨t, hfold, ht, -⟩ | ⟨hfold, -⟩
    · rw [hfold] at hholds ⊢
      obtain ⟨q, rfl, hq⟩ := hholds
      obtain ⟨hx, hword⟩ := ht.element
      simp only [Operand.andThen, Operand.map, projectFrom_eq hq hx, ok_bind, Option.bind_some]
      by_cases helem : 0 < elementAccess.optionLayers
      · obtain ⟨o, ho, hh⟩ := elementRef_holds hword helem
        rw [if_pos helem]
        exact ⟨o, ho, leafReads_of_holds hh⟩
      · obtain ⟨o, u, ho, hu, href⟩ := elementRef_bare hword helem
        rw [if_neg helem, ho, hu]
        exact ⟨.some o, rfl, leafReads_of_holds ⟨o, rfl, href⟩⟩
    · rw [hfold] at hholds ⊢
      obtain rfl : e = .none := hholds
      refine ⟨.none, ?_, leafReads_of_holds rfl⟩
      split <;> rfl
  · obtain ⟨q, t, hq, hfold, href⟩ := elementRef_bare h hparent
    have ht : ProjectsTo (HasWord P elementAccess.word) p t := by
      rcases HasWord.chain p.parentAccess.steps h with ⟨t', hfold', ht, -⟩ | ⟨hfold', -⟩
      · rw [hfold] at hfold'
        cases hfold'
        exact ht
      · rw [hfold] at hfold'
        cases hfold'
    obtain ⟨hx, hword⟩ := ht.element
    simp only [if_neg hparent, hq, ok_bind, projectFrom_eq href hx, hfold, Option.bind_some, applyElementAccess]
    by_cases helem : 0 < elementAccess.optionLayers
    · obtain rfl : hasInnerOption = true := hopt.mpr (by omega)
      obtain ⟨o, ho, hh⟩ := elementRef_holds hword helem
      rw [if_pos helem]
      exact ⟨o, ho, leafReads_of_holds hh⟩
    · obtain rfl : hasInnerOption = false := by
        rw [Bool.eq_false_iff, Ne, hopt]
        omega
      obtain ⟨o, u, ho, hu, href⟩ := elementRef_bare hword helem
      rw [if_neg helem, ho, hu]
      refine ⟨o, rfl, ?_⟩
      simp only [LeafReads, Bool.false_eq_true, ite_false]
      exact ⟨u, rfl, href⟩

/-- The leaf found is one of the element's. -/
theorem projectedLeaf_typed {P : Value → Prop} {p : LayerProjection} {elementAccess : AccessChain} {raw u : Value}
    (h : HasWord (ProjectsTo (HasWord P elementAccess.word) p) p.parentAccess.word raw)
    (hu : projectedLeaf p elementAccess raw = some u) : P u := by
  obtain ⟨t, hfold, hu⟩ := Option.bind_eq_some_iff.mp hu
  rcases HasWord.chain p.parentAccess.steps h with ⟨t', hfold', ht, -⟩ | ⟨hfold', -⟩
  · rw [hfold] at hfold'
    cases hfold'
    rcases HasWord.chain elementAccess.steps ht.element.2 with ⟨x, hx, hP, -⟩ | ⟨hx, -⟩
    · rw [hx] at hu
      cases hu
      exact hP
    · rw [hx] at hu
      cases hu
  · rw [hfold] at hfold'
    cases hfold'

theorem projectedLeaf_cell {P : Value → Prop} {p : LayerProjection} {elementAccess : AccessChain} {raw : Value}
    (h : HasWord (ProjectsTo (HasWord P elementAccess.word) p) p.parentAccess.word raw) (f : Value → Cell) :
    (projectedLeaf p elementAccess raw).elim .null f =
      cellOf (fun t => cellOf f elementAccess.word (elementOf p t)) p.parentAccess.word raw := by
  unfold projectedLeaf
  rcases HasWord.chain p.parentAccess.steps h with ⟨t, hfold, ht, -, hcell⟩ | ⟨hfold, -, -, hcell⟩
  · rw [hfold, hcell, Option.bind_some]
    rcases HasWord.chain elementAccess.steps ht.element.2 with ⟨x, hx, -, -, hxcell⟩ | ⟨hx, -, -, hxcell⟩
    · rw [hx, hxcell]
      rfl
    · rw [hx, hxcell]
      rfl
  · rw [hfold, hcell]
    rfl

theorem projectedLeaf_filterMap (p : LayerProjection) (elementAccess : AccessChain) (raws : List Value) :
    raws.filterMap (projectedLeaf p elementAccess) =
      ((raws.filterMap (chainFold p.parentAccess.steps)).map (elementOf p)).filterMap (chainFold elementAccess.steps) := by
  rw [List.filterMap_map, List.filterMap_filterMap]
  rfl

/-! ## The walk of a projected column -/

/-- Past the parent's wrappers, to the element, past the element's wrappers. -/
def elementWalk (parent : WrapperShape) (select : Value → Option Value) (element : WrapperShape) : Walk :=
  (Walk.word parent).comp ((Walk.read select).comp (Walk.word element))

theorem elementWalk_leaves (parent : WrapperShape) (select : Value → Option Value) (element : WrapperShape)
    (vs : List Value) : vs.flatMap (elementWalk parent select element).leaves =
      ((vs.flatMap (leavesOf parent.word)).map fun t => (select t).getD .none).flatMap (leavesOf element.word) := by
  rw [List.flatMap_map, List.flatMap_assoc]
  refine List.flatMap_congr fun v _ => ?_
  show (leavesOf parent.word v).flatMap (fun t => [(select t).getD .none].flatMap (leavesOf element.word)) = _
  simp only [List.flatMap_singleton]

section

variable {P : Value → Prop} {parent : VecLayers} {p : LayerProjection} {access : Operand → Run Operand}
  {read : Operand → Value} {items : List Operand}

/-- The value a projection reads from a tuple. -/
abbrev LayerProjection.select (p : LayerProjection) : Value → Option Value := projectValue p.path p.smartPtrDepth

/-- A projection at the leaf finds the element's chain behind the parent's. -/
theorem leafProjectionAccess_leaf (hp : Seam p parent) (s : LeafShape) :
    leafProjectionAccess (composeVecParentWithElement parent (.leaf s)) p = some s.access := by
  have hdepth : (composeVecParentWithElement parent (.leaf s)).depth = p.layer := by
    rw [compose_leaf, hp.layer]
    rfl
  rw [leafProjectionAccess, if_neg (not_not.mpr hdepth.symm), compose_leaf, hp.access]
  simp [concatAccessChains]

theorem projection_before_leaf (hp : Seam p parent) (element : VecLayers) :
    p.layer ≠ (composeVecParentWithElement parent (.vec element)).depth := by
  have hpos := element.layers.len_pos
  rw [hp.layer, composeVec_depth]
  simp only [WrapperShape.vecDepth, VecLayers.depth]
  omega

theorem leafProjectionAccess_vec (hp : Seam p parent) (element : VecLayers) :
    leafProjectionAccess (composeVecParentWithElement parent (.vec element)) p = none := by
  rw [leafProjectionAccess, if_pos (projection_before_leaf hp element)]

theorem projectedScanLeafExpr_leaf (hp : Seam p parent) (s : LeafShape) :
    projectedScanLeafExpr (composeVecParentWithElement parent (.leaf s)) p = projectedLeafExpr p s.access := by
  rw [projectedScanLeafExpr, leafProjectionAccess_leaf hp]

theorem projectedScanLeafExpr_vec (hp : Seam p parent) (element : VecLayers) :
    projectedScanLeafExpr (composeVecParentWithElement parent (.vec element)) p =
      pepLeafExpr (composeVecParentWithElement parent (.vec element)) := by
  rw [projectedScanLeafExpr, leafProjectionAccess_vec hp]

/-- The walked layers end before the transition of a projection at the leaf. -/
theorem away_of_seam (hp : Seam p parent) : ∀ k, 0 < k → k < 0 + parent.layers.toList.length → k ≠ p.layer := by
  intro k _ hk
  have := hp.parentLayers.2
  omega

theorem leafWalk_elementLeaf {s : LeafShape} (hn : parent.Nullable) (hs : s.Counted) (hp : Seam p parent)
    (ha : Accesses access read parent.layers.first.access.steps items)
    (ht : ∀ it ∈ items, HasWord (ProjectsTo (HasWord P s.word) p) parent.word (read it)) :
    LeafWalk P (elementWalk (.vec parent) p.select (.leaf s))
      (projectedScanLeafExpr (composeVecParentWithElement parent (.leaf s)) p) (projectedLeaf p s.access) (some p)
      (composeVecParentWithElement parent (.leaf s)) access read items := by
  have hnull := composeVecParentWithElement_nullable (.leaf s) hn hs
  have hopt : (composeVecParentWithElement parent (.leaf s)).hasInnerOption = true ↔
      0 < p.parentAccess.optionLayers + s.access.optionLayers := by
    rw [innerOption_iff hnull, ← optionLayers_pos, compose_leaf, optionLayers_concat, hp.access]
  have hlayers : (composeVecParentWithElement parent (.leaf s)).layers = parent.layers := by rw [compose_leaf]
  have hrows : rowsOf (some p) (composeVecParentWithElement parent (.leaf s)) read items = rowsOf none parent read items := by
    rw [rowsOf, rowsOf, hlayers]
    exact List.map_congr_left fun it _ => tree_away _ 0 _ (away_of_seam hp)
  rw [projectedScanLeafExpr_leaf hp]
  rw [← s.word_access] at ht
  refine ⟨hnull, fun it hit => ?_, fun f => ?_, fun F => ?_, ?_, ?_⟩
  · obtain ⟨o, ho, hb⟩ := ha it hit
    rw [hlayers]
    refine ⟨o, ho, hb, ?_⟩
    have hv := ht it hit
    rw [VecLayers.word_eq parent, hasWord_append] at hv
    refine scans_away _ 0 _ (away_of_seam hp) (HasWord.mono (fun c hc => ?_) hv)
    rw [← hp.access] at hc
    exact ⟨projectedLeafExpr_reads hopt hc, fun u hu => projectedLeaf_typed hc hu⟩
  · rw [hrows, rows_word (fun t => cellOf f s.access.word (elementOf p t)) ht fun v hv => by
      rw [← hp.access] at hv ⊢
      exact projectedLeaf_cell hv f]
    rw [List.map_map, s.word_access]
    rfl
  · show _ ↔ FitsWord i64Max (fun ts => FitsWord i64Max F s.word (ts.map (elementOf p))) parent.word _
    rw [hlayers, hrows, ← rows_fits]
    refine fits_congr _ _ ?_
    rw [fitsWord_chain_nil, ← s.word_access, fitsWord_chain_nil, map_reduceOption, projectedLeaf_filterMap, hp.access]
  · rw [hlayers, hrows, elementWalk_leaves, map_reduceOption, projectedLeaf_filterMap, leaves_field]
    show _ = (((items.map read).flatMap (leavesOf parent.word)).map (elementOf p)).flatMap (leavesOf s.word)
    rw [← s.word_access, leavesOf_chains, map_reduceOption, VecLayers.word_eq parent, hp.access]
    have hinner : (items.map read).flatMap (leavesOf (layersWord parent.layers.toList ++ parent.innerAccess.word)) =
        ((items.map read).flatMap (leavesOf (layersWord parent.layers.toList))).flatMap
          (leavesOf parent.innerAccess.word) := by
      rw [List.flatMap_assoc]
      exact List.flatMap_congr fun v _ => leavesOf_append _ _ v
    rw [hinner, leavesOf_chains, map_reduceOption]
  · rw [VecLayers.depth, hlayers]
    rfl

theorem leafWalk_elementVec {element : VecLayers} (hn : parent.Nullable) (he : element.Nullable) (hp : Seam p parent)
    (hfirst : ∀ c', element.layers.first.access.steps ≠ .smartPtr :: c')
    (ha : Accesses access read parent.layers.first.access.steps items)
    (ht : ∀ it ∈ items, HasWord (ProjectsTo (HasWord P element.word) p) parent.word (read it)) :
    LeafWalk P (elementWalk (.vec parent) p.select (.vec element))
      (projectedScanLeafExpr (composeVecParentWithElement parent (.vec element)) p)
      (chainFold element.innerAccess.steps) (some p) (composeVecParentWithElement parent (.vec element)) access read items := by
  have hnull := composeVecParentWithElement_nullable (.vec element) hn he
  rw [projectedScanLeafExpr_vec hp]
  refine ⟨hnull, ?_, fun f => ?_, fun F => ?_, ?_, ?_⟩
  · refine walks_compose hp hfirst ha ht fun v hv => ⟨pepLeafExpr_reads hnull hv, fun u hu => ?_⟩
    rcases HasWord.chain element.innerAccess.steps hv with ⟨x, hx, hP, -⟩ | ⟨hx, -⟩
    · rw [hx] at hu
      cases hu
      exact hP
    · rw [hx] at hu
      cases hu
  · rw [rows_compose f hp ht fun v hv => by
      rcases HasWord.chain element.innerAccess.steps hv with ⟨u, hu, -, -, hcell⟩ | ⟨hx, -, -, hcell⟩
      · rw [hu]; exact (hcell f).symm
      · rw [hx]; exact (hcell f).symm]
    rw [List.map_map]
    rfl
  · show _ ↔ FitsWord i64Max (fun ts => FitsWord i64Max F element.word (ts.map (elementOf p))) parent.word _
    rw [← fits_compose hn hp ht]
    refine fits_congr _ _ ?_
    rw [fitsWord_chain_nil, map_reduceOption]
  · rw [elementWalk_leaves, ← leavesOf_chains]
    exact leaves_compose hn hp ht
  · rw [composeVec_depth]
    show _ = parent.depth + (0 + element.depth)
    rw [Nat.zero_add]
    rfl

/-- The leaf a raw item of a projected column holds. -/
def projectedItem (p : LayerProjection) : WrapperShape → Value → Option Value
  | .leaf s => projectedLeaf p s.access
  | .vec element => chainFold element.innerAccess.steps

/-- The composed shape of any element follows the walk to the element's leaves. -/
theorem leafWalk_element {element : WrapperShape} (hn : parent.Nullable) (he : element.Counted) (hp : Seam p parent)
    (hfirst : ∀ c', element.firstAccess.steps ≠ .smartPtr :: c')
    (ha : Accesses access read parent.layers.first.access.steps items)
    (ht : ∀ it ∈ items, HasWord (ProjectsTo (HasWord P element.word) p) parent.word (read it)) :
    LeafWalk P (elementWalk (.vec parent) p.select element)
      (projectedScanLeafExpr (composeVecParentWithElement parent element) p) (projectedItem p element) (some p)
      (composeVecParentWithElement parent element) access read items := by
  cases element with
  | leaf s => exact leafWalk_elementLeaf hn he hp ha ht
  | vec element => exact leafWalk_elementVec hn he hp hfirst ha ht

/-! ## Emissions -/

/-- A projected primitive column holds, in every row, what the parent's wrappers, the
    projection and the element's wrappers make of its leaves. -/
theorem emitProjectedVecPrimitive_runs (tr : Traits) (leaf : PrimitiveLeaf) (name : String) {element : WrapperShape}
    (hn : parent.Nullable) (he : element.Counted) (hp : Seam p parent)
    (hfirst : ∀ c', element.firstAccess.steps ≠ .smartPtr :: c')
    (ha : Accesses access read parent.layers.first.access.steps items)
    (ht : ∀ it ∈ items, HasWord (ProjectsTo (HasWord (LeafTyped leaf) element.word) p) parent.word (read it)) :
    Run.Spec (emitProjectedVecPrimitive tr access (composeVecParentWithElement parent element) p leaf name items)
      ((elementWalk (.vec parent) p.select element).fits (AllEncode tr leaf) (items.map read))
      (PrimitiveColumn leaf (leafCell tr leaf) (elementWalk (.vec parent) p.select element) name (items.map read)) := by
  obtain ⟨hspec, hdtype⟩ := vecLeafPlan_reads tr leaf
  have hrun := (leafWalk_element hn he hp hfirst ha ht).primitive hspec
  simp only [emitProjectedVecPrimitive, pepForPrimitiveLeaf, hdtype]
  refine Runs.congr (Runs.bind hrun (H := True) fun _ s hs => ?_) (and_iff_left trivial)
  exact Runs.pure trivial ⟨_, rfl, rfl, hs.1, hs.2⟩

/-- A projected nested column is one batch of the elements the walk leads to. -/
theorem emitProjectedVecNested_batch {E : Fault → Prop} {impl : Impl} (name : String) {element : WrapperShape}
    (hn : parent.Nullable) (he : element.Counted) (hp : Seam p parent)
    (hfirst : ∀ c', element.firstAccess.steps ≠ .smartPtr :: c')
    (ha : Accesses access read parent.layers.first.access.steps items)
    (ht : ∀ it ∈ items, HasWord (ProjectsTo (HasWord P element.word) p) parent.word (read it))
    (hin : impl.Within E ((items.map read).flatMap (elementWalk (.vec parent) p.select element).leaves)) :
    Runs E (emitProjectedVecNested impl access (composeVecParentWithElement parent element) p name items)
      ((elementWalk (.vec parent) p.select element).fits
          (PositionsFit (composeVecParentWithElement parent element).hasInnerOption) (items.map read) ∧
        NestedAnswers ⟨impl, name, .field⟩ ((items.map read).flatMap (elementWalk (.vec parent) p.select element).leaves)
          ((items.map read).flatMap (elementWalk (.vec parent) p.select element).leaves ≠ []))
      (NestedBatch ⟨impl, name, .field⟩
        ((items.map read).flatMap (elementWalk (.vec parent) p.select element).leaves ≠ [])
        (elementWalk (.vec parent) p.select element).depth
        ((items.map read).flatMap (elementWalk (.vec parent) p.select element).leaves)
        fun f => (items.map read).map ((elementWalk (.vec parent) p.select element).cell f)) :=
  (leafWalk_element hn he hp hfirst ha ht).nested hin

end

end DfDerive
