/-
  DfDerive.Codegen.ScopedListsProofs — the buffers and the list of a column read the names they bind.

  A column's block starts where everything it binds is free (`Ambient`). Its precount binds
  the counters, the buffers of every layer are declared after it, one name a layer
  (`ShapeEmitter.precount_clean`, `offsetsDecls_clean`, `validityDecls_clean`), and the
  blocks of the list freeze them and read one another's arrays, the innermost block coming
  first (`shapeAssembleListStack_clean`).
-/

import DfDerive.Codegen.ScopedWalksProofs

namespace DfDerive.Scoped

open Lib Idents

/-! ## Columns' blocks -/

/-- The names a column's block may bind: none of those bound around all columns, and of the
    row loop's names only its own column's. -/
def InBlock (idx : Nat) (i : Ident) : Prop :=
  match i.family with
  | .helper _ | .plain .items | .columns => False
  | .buf | .validity | .rowIdx | .strScratch => i.indices = [idx]
  | _ => True

/-- Where a column's block starts. -/
structure Ambient (idx : Nat) (S : Names Ident) : Prop where
  items : S (plain .items) = .bound
  columns : S columns = .bound
  free : ∀ i, InBlock idx i → S i = .free

/-- The way to a row's value. -/
structure RowAccess (access : TokenStream) : Prop where
  closed : access.Closed
  clean : ∀ T : Names Ident, T populatorIter = .bound → T collapseOptionParam = .free → T tupleProjParam = .free →
    access.Clean T

/-- An emitter's layers and counters are of one namespace. -/
structure ShapeEmitter.Of (e : ShapeEmitter) (ns : LayerNamespace) : Prop where
  layers : e.layers = .new ns
  counters : Function.Injective e.layerCounters
  countersFamily : ∀ l, (e.layerCounters l).family = .layerTotal ns.kind
  totalFamily : e.totalCounter.family ∈ [.totalLeaves, .nestedTotal]
  access : RowAccess e.access

/-- The counters of an emitter are declared. -/
structure ShapeEmitter.Counted (e : ShapeEmitter) (ns : LayerNamespace) (S T : Names Ident) : Prop where
  same : Same [.totalLeaves, .nestedTotal, .layerTotal ns.kind] S T
  total : T e.totalCounter = .bound
  counters : ∀ l, l + 1 < e.shape.depth → T (e.layerCounters l) = .bound

theorem Same.ofDeclared {fs : List Family} {d : Nat → Ident} {on : Nat → Prop} {n : Nat} {S T : Names Ident}
    (h : Code.Declared d on n S T) (hd : ∀ l, (d l).family ∈ fs) : Same fs S T :=
  fun i hi => h.same i fun l _ _ heq => hi (heq ▸ hd l)

namespace ShapeEmitter

variable {e : ShapeEmitter} {ns : LayerNamespace} {idx : Nat} {S : Names Ident}

theorem Of.total_not_mem (he : e.Of ns) {fs : List Family} (hleaves : .totalLeaves ∉ fs) (hnested : .nestedTotal ∉ fs) :
    e.totalCounter.family ∉ fs := by
  have hfamily := he.totalFamily
  simp only [List.mem_cons, List.not_mem_nil, or_false] at hfamily
  rcases hfamily with h | h
  · rwa [h]
  · rwa [h]

theorem Of.counter_ne_total (he : e.Of ns) (l : Nat) : e.layerCounters l ≠ e.totalCounter := fun h => by
  have hfamily : e.totalCounter.family ∉ [.layerTotal ns.kind] := he.total_not_mem (by simp) (by simp)
  rw [← h, he.countersFamily] at hfamily
  exact hfamily List.mem_cons_self

/-- The walk of an emitter starts where the counters of its precount are declared, or later
    than that. -/
theorem Of.walkStart (he : e.Of ns) (ha : Ambient idx S) {fs : List Family} {T : Names Ident} (hT : Same fs S T)
    (pre : OuterSomePrefix) (hfs : ∀ f ∈ fs, f ∉ walkFamilies ns.kind pre ++ [.plain .items, .collapseOptionParam, .tupleProjParam]) :
    WalkStart ns pre e.access T := by
  have hsame : ∀ i : Ident, i.family ∈ walkFamilies ns.kind pre ++ [.plain .items, .collapseOptionParam, .tupleProjParam] →
      T i = S i := fun i hi => hT i fun hmem => hfs _ hmem hi
  have hparam : T collapseOptionParam = .free := by rw [hsame _ (by simp), ha.free collapseOptionParam trivial]
  refine ⟨by rw [hsame _ (by simp), ha.items], fun i hi => ?_, hparam, he.access.closed, he.access.clean _ ?_ ?_ ?_⟩
  · rw [hsame i (List.mem_append_left _ hi)]
    refine ha.free i ?_
    simp only [walkFamilies, List.mem_cons, List.not_mem_nil, or_false] at hi
    rcases hi with h | h | h | h | h <;> simp [InBlock, h]
  · exact Function.update_self ..
  · rw [Function.update_of_ne (by simp), hparam]
  · rw [Function.update_of_ne (by simp), hsame _ (by simp), ha.free tupleProjParam trivial]

theorem precount_clean (he : e.Of ns) (ha : Ambient idx S) : e.precount.Clean S ∧ e.Counted ns S (e.precount.exit S) := by
  have htotal : S e.totalCounter = .free := by
    have hfamily := he.totalFamily
    simp only [List.mem_cons, List.not_mem_nil, or_false] at hfamily
    refine ha.free _ ?_
    rcases hfamily with h | h <;> simp [InBlock, h]
  have hfree : ∀ l, Function.update S e.totalCounter .bound (e.layerCounters l) = .free := fun l => by
    rw [Function.update_of_ne (he.counter_ne_total l), ha.free _ (by simp [InBlock, he.countersFamily])]
  obtain ⟨hcounters, hdeclared⟩ := Code.clean_rangeDeclarations he.counters hfree (n := e.shape.depth - 1)
    (f := fun l => letIn (e.layerCounters l) .done) fun i _ T _ hfree => by simp [hfree]
  have hcodes : (counters e.shape e.layerCounters).map (fun c => letIn c .done) =
      (List.range (e.shape.depth - 1)).map fun l => letIn (e.layerCounters l) .done := List.map_map
  have hcounted : e.Counted ns S (e.precount.exit S) := by
    have hexit : e.precount.exit S = Code.exit (.seq ((List.range (e.shape.depth - 1)).map fun l => letIn (e.layerCounters l) .done))
        (Function.update S e.totalCounter .bound) := by
      simp [precount, ShapePrecount.build, hcodes]
    rw [hexit]
    refine ⟨?_, ?_, fun l hl => hdeclared.bound l (by omega) trivial⟩
    · have hsecond : Same [.layerTotal ns.kind] (Function.update S e.totalCounter .bound) _ :=
        .ofDeclared hdeclared fun l => by simp [he.countersFamily]
      have hfirst : Same [.totalLeaves, .nestedTotal] S (Function.update S e.totalCounter .bound) :=
        (Same.refl _ S).update he.totalFamily _
      exact hfirst.trans hsecond
    · rw [hdeclared.same _ fun l _ _ h => he.counter_ne_total l h.symm]
      exact Function.update_self ..
  refine ⟨?_, hcounted⟩
  have hstart := he.walkStart ha hcounted.same e.precountOuterSomePrefix (by simp [walkFamilies])
  have hready : ShapePrecount.Ready ⟨e.shape, e.access, e.layers, e.precountOuterSomePrefix, e.totalCounter, e.layerCounters,
      e.projection⟩ ns (e.precount.exit S) :=
    { layers := he.layers
      param := hstart.param
      total := hcounted.total
      totalFamily := he.total_not_mem (by simp [walkFamilies]) (by simp [walkFamilies])
      counters := hcounted.counters
      countersFamily := fun l => by simp [he.countersFamily, walkFamilies] }
  have hrows := ShapePrecount.rows_clean hready hstart
  unfold precount ShapePrecount.build at hrows ⊢
  simp only [hcodes, Code.exit_append, exit_forIn, exit_letIn, Code.exit_done] at hrows ⊢
  simp only [Code.clean_append, Code.exit_append, clean_letIn, exit_letIn, Code.exit_done]
  exact ⟨⟨⟨trivial, htotal⟩, hcounters⟩, hrows⟩

theorem capacity_closed (e : ShapeEmitter) (i : Nat) : (e.capacity i).Closed := by
  intro T
  unfold capacity
  split <;> simp

/-- A layer's capacity is the number of rows, or a counter of the precount. -/
theorem capacity_clean {T : Names Ident} (hitems : T (plain .items) = .bound)
    (hcounters : ∀ l, l + 1 < e.shape.depth → T (e.layerCounters l) = .bound) {i : Nat} (hi : i < e.shape.depth) :
    (e.capacity i).Clean T := by
  unfold capacity
  split
  · simp [hitems]
  · simp [hcounters (i - 1) (by omega)]

theorem offsetsDecls_clean (he : e.Of ns) {T : Names Ident} (hitems : T (plain .items) = .bound)
    (hcounters : ∀ l, l + 1 < e.shape.depth → T (e.layerCounters l) = .bound)
    (hfree : ∀ l, T (ns.part .offsets l) = .free) :
    e.offsetsDecls.Clean T ∧
      Code.Declared (ns.part .offsets) (fun _ => True) e.shape.depth T (e.offsetsDecls.exit T) := by
  refine Code.clean_rangeDeclarations (part_injective ns .offsets) hfree fun i hi U hU hUi => ?_
  have hcapacity : (e.capacity i).Clean U := by
    refine capacity_clean ?_ (fun l hl => ?_) hi
    · rw [hU _ fun l => by simp, hitems]
    · rw [hU _ fun l h => by simpa [he.countersFamily] using congrArg Ident.family h, hcounters l hl]
  rw [he.layers]
  simp [e.capacity_closed i U, hcapacity, hUi]

end ShapeEmitter

/-! ## Layers with validity -/

/-- The layers a bitmap is declared for. -/
def HasValidity (shape : VecLayers) (l : Nat) : Prop := ∃ spec, shape.layers.toList[l]? = some spec ∧ spec.hasOuterValidity = true

/-- Declarations for the layers that have a bitmap. -/
theorem validityDeclarations_clean (shape : VecLayers) {d : Nat → Ident} (hd : Function.Injective d) {T : Names Ident}
    (hfree : ∀ l, T (d l) = .free) {init : Nat → TokenStream} (hclosed : ∀ l, (init l).Closed)
    (hinit : ∀ l, HasValidity shape l → ∀ U : Names Ident, (∀ j, (∀ l, j ≠ d l) → U j = T j) → (init l).Clean U) :
    let decls : TokenStream :=
      .seq (shape.layers.toList.mapIdx fun i spec => if spec.hasOuterValidity then letIn (d i) (init i) else .done)
    decls.Clean T ∧ Code.Declared d (HasValidity shape) shape.depth T (decls.exit T) := by
  obtain ⟨hclean, hend⟩ := Code.clean_declarations hd (HasValidity shape) hfree
    (shape.layers.toList.mapIdx fun i spec => if spec.hasOuterValidity then letIn (d i) (init i) else .done) fun i c U hi hU hUi => by
      rw [List.getElem?_mapIdx, Option.map_eq_some_iff] at hi
      obtain ⟨spec, hspec, rfl⟩ := hi
      have hiff : HasValidity shape i ↔ spec.hasOuterValidity = true := by simp [HasValidity, hspec]
      rw [hiff]
      cases hvalidity : spec.hasOuterValidity with
      | true =>
        rw [if_pos rfl, clean_letIn, exit_letIn, hclosed]
        exact ⟨⟨hinit i (hiff.mpr hvalidity) U hU, hUi⟩, fun _ => rfl, fun h => absurd rfl h⟩
      | false => exact ⟨trivial, nofun, fun _ => rfl⟩
  refine ⟨hclean, ?_⟩
  rwa [List.length_mapIdx, NonEmpty.length_toList] at hend

theorem ShapeEmitter.validityDecls_clean {e : ShapeEmitter} {ns : LayerNamespace} (he : e.Of ns) {T : Names Ident}
    (hitems : T (plain .items) = .bound) (hcounters : ∀ l, l + 1 < e.shape.depth → T (e.layerCounters l) = .bound)
    (hfree : ∀ l, T (ns.part .validityMb l) = .free) :
    e.validityDecls.Clean T ∧
      Code.Declared (ns.part .validityMb) (HasValidity e.shape) e.shape.depth T (e.validityDecls.exit T) := by
  unfold validityDecls
  rw [he.layers]
  refine validityDeclarations_clean e.shape (part_injective ns .validityMb) hfree e.capacity_closed ?_
  rintro l ⟨spec, hspec, -⟩ U hU
  refine capacity_clean ?_ (fun l hl => ?_) ?_
  · rw [hU _ fun l => by simp, hitems]
  · rw [hU _ fun l h => by simpa [he.countersFamily] using congrArg Ident.family h, hcounters l hl]
  · exact layer_lt_depth hspec

/-- Bitmaps and offsets frozen ahead of all blocks. -/
theorem shapeFreezeValidityBitmaps_clean (shape : VecLayers) (ns : LayerNamespace) {T : Names Ident}
    (hfree : ∀ l, T (ns.part .validityBm l) = .free)
    (hbound : ∀ l, HasValidity shape l → T (ns.part .validityMb l) = .bound) :
    (shapeFreezeValidityBitmaps shape (.new ns)).Clean T ∧
      Code.Declared (ns.part .validityBm) (HasValidity shape) shape.depth T
        ((shapeFreezeValidityBitmaps shape (.new ns)).exit T) := by
  refine validityDeclarations_clean shape (part_injective ns .validityBm) hfree (fun l U => by simp) fun l hl U hU => ?_
  have : U (ns.part .validityMb l) = .bound := by rw [hU _ fun l => by simp, hbound l hl]
  simp [this]

theorem shapeFreezeOffsetsBuffers_clean (shape : VecLayers) (ns : LayerNamespace) {T : Names Ident}
    (hfree : ∀ l, T (ns.part .offsetsBuf l) = .free) (hbound : ∀ l < shape.depth, T (ns.part .offsets l) = .bound) :
    (shapeFreezeOffsetsBuffers shape (.new ns)).Clean T ∧
      Code.Declared (ns.part .offsetsBuf) (fun _ => True) shape.depth T
        ((shapeFreezeOffsetsBuffers shape (.new ns)).exit T) := by
  refine Code.clean_rangeDeclarations (part_injective ns .offsetsBuf) hfree fun i hi U hU hUi => ?_
  have : U (ns.part .offsets i) = .bound := by rw [hU _ fun l => by simp, hbound i hi]
  simp [freezeOffsetsBuf, this, hUi]

/-! ## List assembly -/

/-- The names the blocks of a list bind. -/
def listFamilies (kind : LayerKind) : List Family := [.listArr kind, .layer kind .offsetsBuf, .layer kind .validityBm]

/-- The layers' arrays are named after the layers. -/
structure ArrIds (arr : Nat → Ident) (ns : LayerNamespace) : Prop where
  injective : Function.Injective arr
  family : ∀ l, (arr l).family = .listArr ns.kind

/-- The tables differ in what the blocks of the layers from `cur` on bind. -/
structure SameBelow (ns : LayerNamespace) (arr : Nat → Ident) (cur : Nat) (S T : Names Ident) : Prop where
  same : Same (listFamilies ns.kind) S T
  arrs : ∀ l < cur, T (arr l) = S (arr l)
  offsetsBuf : ∀ l < cur, T (ns.part .offsetsBuf l) = S (ns.part .offsetsBuf l)
  validityBm : ∀ l < cur, T (ns.part .validityBm l) = S (ns.part .validityBm l)

/-- What the block of a layer needs of its buffers: they are frozen where it starts, or by
    its own declarations. -/
structure LayerWrap.Ready (w : LayerWrap) (ns : LayerNamespace) (cur : Nat) (T : Names Ident) : Prop where
  freeze : w.freezeDecl.Clean T
  offsets : w.freezeDecl.exit T w.offsetsBuf = .bound
  validity : ∀ v ∈ w.validityBm.toList, w.freezeDecl.exit T v = .bound
  same : ∀ i, i ≠ ns.part .offsetsBuf cur → i ≠ ns.part .validityBm cur → w.freezeDecl.exit T i = T i

section

variable {ns : LayerNamespace} {arr : Nat → Ident} {S T : Names Ident}

theorem LayerWrap.Ready.other {w : LayerWrap} {cur : Nat} (h : w.Ready ns cur T) {i : Ident}
    (hoffsets : i.family ≠ .layer ns.kind .offsetsBuf) (hvalidity : i.family ≠ .layer ns.kind .validityBm) :
    w.freezeDecl.exit T i = T i :=
  h.same i (by rintro rfl; exact hoffsets rfl) (by rintro rfl; exact hvalidity rfl)

/-- A block leaves the layers above its own as they were. -/
theorem SameBelow.block {cur : Nat} (h : SameBelow ns arr (cur + 1) S T) (harr : ArrIds arr ns) {w : LayerWrap}
    (hw : w.Ready ns cur T) : SameBelow ns arr cur S (Function.update (w.freezeDecl.exit T) (arr cur) .bound) := by
  have hfamily := harr.family
  have hne : ∀ i : Ident, i.family ≠ .listArr ns.kind → i ≠ arr cur := fun i hi heq => hi (heq ▸ hfamily cur)
  refine ⟨fun i hi => ?_, fun l hl => ?_, fun l hl => ?_, fun l hl => ?_⟩
  · simp only [listFamilies, List.mem_cons, List.not_mem_nil, or_false, not_or] at hi
    rw [Function.update_of_ne (hne i hi.1), hw.other hi.2.1 hi.2.2, h.same i (by simp [listFamilies, hi])]
  · rw [Function.update_of_ne fun heq => by have := harr.injective heq; omega, hw.other (by simp [hfamily]) (by simp [hfamily]),
      h.arrs l (by omega)]
  · rw [Function.update_of_ne (hne _ (by simp)), hw.same _ (by simp; omega) (by simp), h.offsetsBuf l (by omega)]
  · rw [Function.update_of_ne (hne _ (by simp)), hw.same _ (by simp) (by simp; omega), h.validityBm l (by omega)]

/-- The blocks of the layers from `cur` on, the innermost first: each reads the array of the
    block before it. -/
theorem listBlocks_clean (harr : ArrIds arr ns) {seed seedDtype : Ident} (hseed : S seed = .bound)
    (hdtype : S seedDtype = .bound) (hseedFamily : seed.family ∉ listFamilies ns.kind)
    (hdtypeFamily : seedDtype.family ∉ listFamilies ns.kind) (hfree : ∀ l, S (arr l) = .free) :
    ∀ (wraps : List LayerWrap) (cur : Nat),
      (∀ l w, wraps[l]? = some w → ∀ T, SameBelow ns arr (cur + l + 1) S T → w.Ready ns (cur + l) T) →
        (listBlocks (use [seed]) (use [seedDtype]) arr wraps cur).Clean S ∧
          SameBelow ns arr cur S ((listBlocks (use [seed]) (use [seedDtype]) arr wraps cur).exit S) ∧
          (wraps ≠ [] → (listBlocks (use [seed]) (use [seedDtype]) arr wraps cur).exit S (arr cur) = .bound) := by
  intro wraps
  induction wraps with
  | nil => exact fun cur _ => ⟨trivial, ⟨.refl _ S, fun _ _ => rfl, fun _ _ => rfl, fun _ _ => rfl⟩, fun h => absurd rfl h⟩
  | cons w inner ih =>
    intro cur hready
    obtain ⟨hinner, hbelow, hprev⟩ := ih (cur + 1) fun l w' hw' => by
      have := hready (l + 1) w' hw'
      rwa [show cur + (l + 1) = cur + 1 + l by omega] at this
    have hw := hready 0 w rfl _ hbelow
    rw [Nat.add_zero] at hw
    generalize hT₁ : (listBlocks (use [seed]) (use [seedDtype]) arr inner (cur + 1)).exit S = T₁ at hbelow hprev hw
    have harrs : ∀ l, w.freezeDecl.exit T₁ (arr l) = T₁ (arr l) := fun l =>
      hw.other (by simp [harr.family]) (by simp [harr.family])
    -- the innermost layer reads the seed, every other one the array below
    have hread : ∀ i : Ident, S i = .bound → i.family ∉ listFamilies ns.kind →
        (if inner.isEmpty then use [i] else use [arr (cur + 1)]).Clean (w.freezeDecl.exit T₁) := by
      intro i hi hfamily
      split
      · simp only [listFamilies, List.mem_cons, List.not_mem_nil, or_false, not_or] at hfamily
        rw [clean_use, List.forall_mem_singleton, hw.other hfamily.2.1 hfamily.2.2, hbelow.same i (by simp [listFamilies, hfamily]), hi]
      · rename_i hne
        rw [clean_use, List.forall_mem_singleton, harrs, hprev fun h => hne (by rw [h]; rfl)]
    have hclosed : ∀ i : Ident, (if inner.isEmpty then use [i] else use [arr (cur + 1)]).Closed := by
      intro i U
      split <;> simp
    have hexit : (listBlocks (use [seed]) (use [seedDtype]) arr (w :: inner) cur).exit S =
        Function.update (w.freezeDecl.exit T₁) (arr cur) .bound := by
      simp only [listBlocks, Code.exit_append, hT₁, exit_letIn, hclosed _ _, exit_use]
    rw [hexit]
    refine ⟨?_, hbelow.block harr hw, fun _ => Function.update_self ..⟩
    simp only [listBlocks, clean_letIn, Code.clean_append, Code.exit_append, hT₁, hclosed _ _, exit_use, clean_use]
    refine ⟨⟨hinner, hw.freeze⟩, ⟨⟨⟨hread _ hdtype hdtypeFamily, ?_⟩, hread _ hseed hseedFamily⟩, hw.validity⟩, ?_⟩
    · simpa using hw.offsets
    · rw [harrs, hbelow.arrs cur (Nat.lt_succ_self _), hfree]

theorem shapeAssembleListStack_clean (harr : ArrIds arr ns) {seed seedDtype : Ident} (hseed : S seed = .bound)
    (hdtype : S seedDtype = .bound) (hseedFamily : seed.family ∉ listFamilies ns.kind)
    (hdtypeFamily : seedDtype.family ∉ listFamilies ns.kind) (hfree : ∀ l, S (arr l) = .free)
    {wraps : List LayerWrap} (hne : wraps ≠ [])
    (hwraps : ∀ l w, wraps[l]? = some w → ∀ T, SameBelow ns arr (l + 1) S T → w.Ready ns l T)
    (hhelper : S (helper .assembleHelper) = .bound) {logicalDtype : TokenStream}
    (hlogical : ∀ T, Same (listFamilies ns.kind) S T → logicalDtype.Clean T) :
    (shapeAssembleListStack (use [seed]) (use [seedDtype]) wraps logicalDtype arr).Clean S := by
  obtain ⟨hblocks, hbelow, houter⟩ := listBlocks_clean harr hseed hdtype hseedFamily hdtypeFamily hfree wraps 0 fun l w hw => by
    simpa using hwraps l w hw
  simp only [shapeAssembleListStack, Code.clean_append, Code.exit_append, exit_use, clean_use]
  refine ⟨⟨hblocks, fun i hi => ?_⟩, hlogical _ hbelow.same⟩
  simp only [List.mem_cons, List.not_mem_nil, or_false] at hi
  rcases hi with rfl | rfl
  · rw [hbelow.same _ (by simp [listFamilies]), hhelper]
  · exact houter hne

/-- Buffers that every block freezes for itself. -/
theorem shapeLayerWrapsMove_ready {shape : VecLayers} (hoffsets : ∀ l < shape.depth, S (ns.part .offsets l) = .bound)
    (hvalidity : ∀ l, HasValidity shape l → S (ns.part .validityMb l) = .bound)
    (hbuf : ∀ l, S (ns.part .offsetsBuf l) = .free) (hbm : ∀ l, S (ns.part .validityBm l) = .free) (l : Nat) (w : LayerWrap)
    (hw : (shapeLayerWrapsMove shape (.new ns))[l]? = some w) (hT : SameBelow ns arr (l + 1) S T) : w.Ready ns l T := by
  rw [shapeLayerWrapsMove, List.getElem?_mapIdx, Option.map_eq_some_iff] at hw
  obtain ⟨spec, hspec, rfl⟩ := hw
  have hoff : T (ns.part .offsets l) = .bound := by
    rw [hT.same _ (by simp [listFamilies]), hoffsets l (layer_lt_depth hspec)]
  have hbufFree : T (ns.part .offsetsBuf l) = .free := by rw [hT.offsetsBuf l (Nat.lt_succ_self l), hbuf]
  have hbmFree : T (ns.part .validityBm l) = .free := by rw [hT.validityBm l (Nat.lt_succ_self l), hbm]
  cases hflag : spec.hasOuterValidity with
  | false =>
    refine ⟨?_, ?_, ?_, fun i hi _ => ?_⟩
    · simp [freezeOffsetsBuf, hoff, hbufFree]
    · simp [freezeOffsetsBuf]
    · simp
    · simp [freezeOffsetsBuf, Function.update_of_ne hi]
  | true =>
    have hmb : T (ns.part .validityMb l) = .bound := by
      rw [hT.same _ (by simp [listFamilies]), hvalidity l ⟨spec, hspec, hflag⟩]
    refine ⟨?_, ?_, ?_, fun i hi hi' => ?_⟩
    · simp [freezeOffsetsBuf, freezeValidityBitmap, hoff, hbufFree, hmb, hbmFree]
    · simp [freezeOffsetsBuf, freezeValidityBitmap]
    · simp [freezeOffsetsBuf, freezeValidityBitmap]
    · simp [freezeOffsetsBuf, freezeValidityBitmap, Function.update_of_ne hi, Function.update_of_ne hi']

/-- Buffers frozen ahead of the blocks. -/
theorem shapeLayerWrapsClone_ready {shape : VecLayers} (hbuf : ∀ l < shape.depth, S (ns.part .offsetsBuf l) = .bound)
    (hbm : ∀ l, HasValidity shape l → S (ns.part .validityBm l) = .bound) (l : Nat) (w : LayerWrap)
    (hw : (shapeLayerWrapsClone shape (.new ns))[l]? = some w) (hT : SameBelow ns arr (l + 1) S T) : w.Ready ns l T := by
  rw [shapeLayerWrapsClone, List.getElem?_mapIdx, Option.map_eq_some_iff] at hw
  obtain ⟨spec, hspec, rfl⟩ := hw
  refine ⟨trivial, ?_, fun v hv => ?_, fun _ _ _ => rfl⟩
  · exact (hT.offsetsBuf l (Nat.lt_succ_self l)).trans (hbuf l (layer_lt_depth hspec))
  · cases hflag : spec.hasOuterValidity with
    | false => simp [hflag] at hv
    | true =>
      simp only [hflag, if_true, Option.toList_some, List.mem_singleton] at hv
      subst hv
      exact (hT.validityBm l (Nat.lt_succ_self l)).trans (hbm l ⟨spec, hspec, hflag⟩)

end

end DfDerive.Scoped
