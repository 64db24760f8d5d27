/-
  DfDerive.Codegen.ScopedWalksProofs — the walks read the names they bind.

  `Same fs S T` says that two tables differ in names of the families `fs` alone. A walk
  binds, layer by layer, an item of the layer below, its list past an `Option`, and the
  closure parameters (`walkFamilies`); what its leaf body reads stands for the same
  wherever the body is spliced. So a walk is clean when its leaf body is in every such
  table (`ShapeScan.build_clean`, `ShapePrecount.build_clean`).
-/

import DfDerive.Codegen.ScopedWalks
import DfDerive.Codegen.NestedProofs

namespace DfDerive.Scoped

open Lib Idents

/-! ## Quotations -/

@[simp] theorem use_nil : use [] = .done := rfl
@[simp] theorem use_cons (i : Ident) (names : List Ident) : use (i :: names) = .read (.own i) (use names) := rfl

@[simp] theorem exit_use (names : List Ident) (S : Names Ident) : (use names).exit S = S := by
  induction names with
  | nil => rfl
  | cons i names ih => exact ih

theorem clean_use {names : List Ident} {S : Names Ident} : (use names).Clean S ↔ ∀ i ∈ names, S i = .bound := by
  induction names with
  | nil => simp
  | cons i names ih => simp [ih]

section

variable (b : Binder Ident) (i : Ident) (init iter body some none : TokenStream) (S : Names Ident)

@[simp] theorem exit_read : (read b).exit S = S := rfl
@[simp] theorem clean_read : (read b).Clean S ↔ S b.ident = b.status := by simp [read]

@[simp] theorem exit_letIn : (letIn i init).exit S = Function.update (init.exit S) i .bound := by simp [letIn]
@[simp] theorem clean_letIn : (letIn i init).Clean S ↔ init.Clean S ∧ init.exit S i = .free := by simp [letIn]

@[simp] theorem exit_block : (block body).exit S = S := rfl
@[simp] theorem clean_block : (block body).Clean S ↔ body.Clean S := by simp [block]

@[simp] theorem exit_closure : (closure b body).exit S = S := rfl
@[simp] theorem clean_closure :
    (closure b body).Clean S ↔ S b.ident = b.before ∧ body.Clean (Function.update S b.ident b.status) := by simp [closure]

@[simp] theorem exit_forIn : (forIn i iter body).exit S = iter.exit S := by simp [forIn]
@[simp] theorem clean_forIn : (forIn i iter body).Clean S ↔
    iter.Clean S ∧ iter.exit S i = .free ∧ body.Clean (Function.update (iter.exit S) i .bound) := by simp [forIn]

@[simp] theorem exit_matchOption : (matchOption iter b some none).exit S = iter.exit S := by simp [matchOption]
@[simp] theorem clean_matchOption : (matchOption iter b some none).Clean S ↔
    iter.Clean S ∧ (iter.exit S b.ident = b.before ∧ some.Clean (Function.update (iter.exit S) b.ident b.status)) ∧
      none.Clean (iter.exit S) := by simp [matchOption, and_assoc]

end

/-! ## Tables that agree -/

/-- The tables differ in names of the given families alone. -/
def Same (fs : List Family) (S T : Names Ident) : Prop := ∀ i, i.family ∉ fs → T i = S i

namespace Same

variable {fs gs : List Family} {S T U : Names Ident}

theorem refl (fs : List Family) (S : Names Ident) : Same fs S S := fun _ _ => rfl

theorem trans (h : Same fs S T) (h' : Same gs T U) : Same (fs ++ gs) S U := by
  intro i hi
  rw [List.mem_append, not_or] at hi
  rw [h' i hi.2, h i hi.1]

theorem mono (h : Same fs S T) (hsub : fs ⊆ gs) : Same gs S T := fun i hi => h i fun hmem => hi (hsub hmem)

theorem update (h : Same fs S T) {i : Ident} (hi : i.family ∈ fs) (v : Status) : Same fs S (Function.update T i v) := by
  intro j hj
  rw [Function.update_of_ne (by rintro rfl; exact hj hi), h j hj]

end Same

/-! ## Access chains -/

/-- `e` is `base` with closures over the parameter of the option chains after it. -/
def Wraps (base e : TokenStream) : Prop :=
  base.Closed → e.Closed ∧ ∀ S, S collapseOptionParam = .free → base.Clean S → e.Clean S

theorem Wraps.refl (base : TokenStream) : Wraps base base := fun hbase => ⟨hbase, fun _ _ h => h⟩

theorem Wraps.trans {a b c : TokenStream} (h : Wraps a b) (h' : Wraps b c) : Wraps a c := by
  intro ha
  obtain ⟨hb, hclean⟩ := h ha
  obtain ⟨hc, hclean'⟩ := h' hb
  exact ⟨hc, fun S hS hclosed => hclean' S hS (hclean S hS hclosed)⟩

theorem wraps_closure (base : TokenStream) :
    Wraps base (base ++ closure (.own collapseOptionParam) (use [collapseOptionParam])) := by
  intro hbase
  refine ⟨fun S => by simp [hbase S], fun S hS hclean => ?_⟩
  simp [hclean, hbase S, hS]

theorem wraps_collapse (base : TokenStream) (n : Nat) : Wraps base (collapseOptionsToRef base n) := by
  have hiterate : ∀ n, Wraps base (andThenAsRef^[n] base) := by
    intro n
    induction n with
    | zero => exact .refl base
    | succ n ih =>
      rw [Function.iterate_succ_apply']
      exact ih.trans (wraps_closure _)
  unfold collapseOptionsToRef
  split
  · exact .refl base
  · exact hiterate _

theorem wraps_applyPending (expr : TokenStream) (hasOption : Bool) (n : Nat) :
    Wraps expr (applyPendingSmartPtrs expr hasOption n) := by
  unfold applyPendingSmartPtrs
  split
  · exact .refl expr
  · split
    · exact wraps_closure expr
    · exact .refl expr

theorem wraps_step (s : ChainState) (step : AccessStep) : Wraps s.expr (s.step step).expr := by
  cases step with
  | smartPtr => exact .refl _
  | option =>
    simp only [ChainState.step]
    split
    · exact (wraps_applyPending _ _ _).trans (wraps_closure _)
    · exact wraps_applyPending _ _ _

theorem wraps_foldl (steps : List AccessStep) (s : ChainState) : Wraps s.expr (steps.foldl ChainState.step s).expr := by
  induction steps generalizing s with
  | nil => exact .refl _
  | cons step steps ih => exact (wraps_step s step).trans (ih _)

theorem wraps_accessChainToRef (base : TokenStream) (chain : AccessChain) :
    Wraps base (accessChainToRef base chain).expr := by
  unfold accessChainToRef
  split
  · exact .refl base
  · split
    · dsimp only
      split
      · exact .refl base
      · exact wraps_collapse base _
    · exact (wraps_foldl chain.steps ⟨base, false, 0⟩).trans (wraps_applyPending _ _ _)

theorem wraps_accessChainToOptionRef (base : TokenStream) (chain : AccessChain) :
    Wraps base (accessChainToOptionRef base chain) := by
  unfold accessChainToOptionRef
  split
  · exact wraps_collapse base _
  · exact wraps_accessChainToRef base chain

/-- The flag is the one of the expressions that run (`DfDerive.accessChainToRef`). -/
theorem accessChainToRef_hasOption (base : TokenStream) (chain : AccessChain) :
    (accessChainToRef base chain).hasOption = decide (.option ∈ chain.steps) := by
  have hloop : ∀ (steps : List AccessStep) (s : ChainState),
      (steps.foldl ChainState.step s).hasOption = (s.hasOption || decide (.option ∈ steps)) := by
    intro steps
    induction steps with
    | nil => intro s; simp
    | cons st steps ih =>
      intro s
      rw [List.foldl_cons, ih]
      cases st with
      | smartPtr => simp [ChainState.step]
      | option =>
        have : (s.step .option).hasOption = true := by
          simp only [ChainState.step]
          split <;> rfl
        simp [this]
  unfold accessChainToRef
  split
  · rename_i h
    have : chain.steps = [] := by simpa [AccessChain.isEmpty] using h
    simp [this]
  · split
    · simp only [optionLayers_pos]
    · show (chain.steps.foldl ChainState.step ⟨base, false, 0⟩).hasOption = _
      rw [hloop]
      simp

/-! ## Projection -/

theorem wraps_projectionBaseToRef (item : Ident) (parentAccess : AccessChain) :
    Wraps (use [item]) (projectionBaseToRef item parentAccess) := by
  unfold projectionBaseToRef
  split
  · exact .refl _
  · split
    · exact wraps_accessChainToOptionRef _ _
    · exact wraps_accessChainToRef _ _

theorem projectedLayerBind_clean (item : Ident) (projection : LayerProjection) (pre : OuterSomePrefix) (cur : Nat) :
    (projectedLayerBind item projection pre cur).Closed ∧ ∀ S, S collapseOptionParam = .free → S (proj pre cur) = .free →
      S item = .bound → (projectedLayerBind item projection pre cur).Clean S := by
  obtain ⟨hclosed, hclean⟩ := wraps_projectionBaseToRef item projection.parentAccess fun S => by simp
  unfold projectedLayerBind projectFrom
  dsimp only
  split
  · exact ⟨hclosed, fun S hparam _ hitem => hclean S hparam (by simp [hitem])⟩
  · refine ⟨fun S => by simp [hclosed S], fun S hparam hproj hitem => ?_⟩
    have hbase := hclean S hparam (by simp [hitem])
    simp [hbase, hclosed S, hproj]

/-! ## Walks -/

theorem part_injective (ns : LayerNamespace) (p : LayerPart) :
    Function.Injective (ns.part p) := fun l m h => by simpa using h

/-- The names a walk binds around its leaf body. -/
def walkFamilies (kind : LayerKind) (pre : OuterSomePrefix) : List Family :=
  [.populatorIter, .layer kind .bind, .outerSome pre, .projItem pre, .proj pre]

/-- Around the items of layer `cur`: the names the layers below bind are free, those of
    other families are as in `S₀`. -/
structure WalkAt (ns : LayerNamespace) (pre : OuterSomePrefix) (S₀ : Names Ident) (cur : Nat) (S : Names Ident) : Prop where
  same : Same (walkFamilies ns.kind pre) S₀ S
  bind : ∀ l, cur < l → S (ns.part .bind l) = .free
  some : ∀ l, cur < l → S (outerSome pre l) = .free
  item : ∀ l, cur ≤ l → S (projItem pre l) = .free
  param : ∀ l, cur ≤ l → S (proj pre l) = .free

namespace WalkAt

variable {ns : LayerNamespace} {pre : OuterSomePrefix} {S₀ S : Names Ident} {cur : Nat}

/-- Past the match on the `Option`s of layer `cur`. -/
theorem bindSome (h : WalkAt ns pre S₀ cur S) : WalkAt ns pre S₀ cur (Function.update S (outerSome pre cur) .bound) where
  same := h.same.update (by simp [walkFamilies]) _
  bind l hl := by rw [Function.update_of_ne (by simp)]; exact h.bind l hl
  some l hl := by rw [Function.update_of_ne (by simp; omega)]; exact h.some l hl
  item l hl := by rw [Function.update_of_ne (by simp)]; exact h.item l hl
  param l hl := by rw [Function.update_of_ne (by simp)]; exact h.param l hl

/-- Inside the loop over the items of layer `cur`. -/
theorem bindInner (h : WalkAt ns pre S₀ cur S) :
    WalkAt ns pre S₀ (cur + 1) (Function.update S (ns.part .bind (cur + 1)) .bound) where
  same := h.same.update (by simp [walkFamilies]) _
  bind l hl := by rw [Function.update_of_ne (by simp; omega)]; exact h.bind l (by omega)
  some l hl := by rw [Function.update_of_ne (by simp)]; exact h.some l (by omega)
  item l hl := by rw [Function.update_of_ne (by simp)]; exact h.item l (by omega)
  param l hl := by rw [Function.update_of_ne (by simp)]; exact h.param l (by omega)

/-- The same past the item a projection reads from. -/
theorem bindProjected (h : WalkAt ns pre S₀ cur S) : WalkAt ns pre S₀ (cur + 1)
    (Function.update (Function.update S (projItem pre cur) .bound) (ns.part .bind (cur + 1)) .bound) where
  same := (h.same.update (by simp [walkFamilies]) _).update (by simp [walkFamilies]) _
  bind l hl := by
    rw [Function.update_of_ne (by simp; omega), Function.update_of_ne (by simp)]
    exact h.bind l (by omega)
  some l hl := by
    rw [Function.update_of_ne (by simp), Function.update_of_ne (by simp)]
    exact h.some l (by omega)
  item l hl := by
    rw [Function.update_of_ne (by simp), Function.update_of_ne (by simp; omega)]
    exact h.item l (by omega)
  param l hl := by
    rw [Function.update_of_ne (by simp), Function.update_of_ne (by simp)]
    exact h.param l (by omega)

end WalkAt

/-- What a column's block has at hand for a walk: the rows, the way to a row's value, and
    the free names of the walk. -/
structure WalkStart (ns : LayerNamespace) (pre : OuterSomePrefix) (access : TokenStream) (S : Names Ident) : Prop where
  items : S (plain .items) = .bound
  free : ∀ i, i.family ∈ walkFamilies ns.kind pre → S i = .free
  param : S collapseOptionParam = .free
  accessClosed : access.Closed
  access : access.Clean (Function.update S populatorIter .bound)

/-- Inside the loop over the rows. -/
theorem WalkStart.rows {ns : LayerNamespace} {pre : OuterSomePrefix} {access : TokenStream} {S : Names Ident}
    (h : WalkStart ns pre access S) : WalkAt ns pre S 0 (Function.update S populatorIter .bound) ∧
      Function.update S populatorIter .bound (outerSome pre 0) = .free := by
  have hfree : ∀ i : Ident, i.family ∈ walkFamilies ns.kind pre → i ≠ populatorIter →
      Function.update S populatorIter .bound i = .free := fun i hi hne => by rw [Function.update_of_ne hne, h.free i hi]
  refine ⟨⟨(Same.refl _ S).update (by simp [walkFamilies]) _, ?_, ?_, ?_, ?_⟩, ?_⟩
  · exact fun l _ => hfree _ (by simp [walkFamilies]) (by simp)
  · exact fun l _ => hfree _ (by simp [walkFamilies]) (by simp)
  · exact fun l _ => hfree _ (by simp [walkFamilies]) (by simp)
  · exact fun l _ => hfree _ (by simp [walkFamilies]) (by simp)
  · exact hfree _ (by simp [walkFamilies]) (by simp)

theorem itemLoop_closed (projection : Option LayerProjection) (pre : OuterSomePrefix) (cur : Nat) (innerBind : Ident)
    {vecBind : TokenStream} (hvec : vecBind.Closed) (body : TokenStream) :
    (itemLoop projection pre cur innerBind vecBind body).Closed := by
  intro S
  unfold itemLoop
  split <;> simp [hvec S]

/-- The loop of a layer is clean when its body is below that layer. -/
theorem itemLoop_clean {ns : LayerNamespace} {pre : OuterSomePrefix} {S₀ S : Names Ident} {cur : Nat}
    (projection : Option LayerProjection) {vecBind body : TokenStream} (hat : WalkAt ns pre S₀ cur S)
    (hparam : S₀ collapseOptionParam = .free) (hvec : vecBind.Closed) (hclean : vecBind.Clean S)
    (hbody : ∀ T, WalkAt ns pre S₀ (cur + 1) T → T (outerSome pre (cur + 1)) = .free → T (ns.part .bind (cur + 1)) = .bound →
      body.Clean T) :
    (itemLoop projection pre cur (ns.part .bind (cur + 1)) vecBind body).Clean S := by
  unfold itemLoop
  split
  · rw [clean_forIn, hvec S]
    refine ⟨hclean, hat.bind _ (Nat.lt_succ_self _), hbody _ hat.bindInner ?_ (Function.update_self ..)⟩
    rw [Function.update_of_ne (by simp)]
    exact hat.some _ (Nat.lt_succ_self _)
  · rename_i p _
    obtain ⟨hclosed, hprojected⟩ := projectedLayerBind_clean (projItem pre cur) p pre cur
    rw [clean_forIn, hvec S, Code.clean_append, clean_letIn, exit_letIn, hclosed]
    refine ⟨hclean, hat.item _ (Nat.le_refl _), ⟨hprojected _ ?_ ?_ (Function.update_self ..), ?_⟩,
      hbody _ hat.bindProjected ?_ (Function.update_self ..)⟩
    · rw [Function.update_of_ne (by simp), hat.same _ (by simp [walkFamilies])]
      exact hparam
    · rw [Function.update_of_ne (by simp)]
      exact hat.param _ (Nat.le_refl _)
    · rw [Function.update_of_ne (by simp)]
      exact hat.bind _ (Nat.lt_succ_self _)
    · rw [Function.update_of_ne (by simp), Function.update_of_ne (by simp)]
      exact hat.some _ (Nat.lt_succ_self _)

theorem layer_lt_depth {shape : VecLayers} {l : Nat} {spec : VecLayerSpec} (h : shape.layers.toList[l]? = some spec) :
    l < shape.depth := by
  rw [VecLayers.depth, ← NonEmpty.length_toList]
  exact (List.getElem?_eq_some_iff.mp h).1

theorem drop_layers {shape : VecLayers} {cur : Nat} {spec : VecLayerSpec} {inner : List VecLayerSpec}
    (h : shape.layers.toList.drop cur = spec :: inner) :
    shape.layers.toList[cur]? = some spec ∧ shape.layers.toList.drop (cur + 1) = inner ∧
      cur + (inner.length + 1) = shape.depth := by
  have hspec : shape.layers.toList[cur]? = some spec := by
    rw [← Nat.add_zero cur, ← List.getElem?_drop, h]; rfl
  refine ⟨hspec, by rw [← List.drop_drop, h]; rfl, ?_⟩
  have hlt := layer_lt_depth hspec
  have hlen := congrArg List.length h
  rw [List.length_drop, List.length_cons, NonEmpty.length_toList] at hlen
  rw [VecLayers.depth] at hlt ⊢
  omega

/-! ### Scan -/

/-- What a scan finds where it starts, for its leaf body as well. -/
structure ShapeScan.Ready (s : ShapeScan) (ns : LayerNamespace) (S₀ : Names Ident) : Prop where
  layers : s.layers = .new ns
  param : S₀ collapseOptionParam = .free
  offset : S₀ listOffset = .free
  offsets : ∀ l < s.shape.depth, S₀ (ns.part .offsets l) = .bound
  validity : ∀ l spec, s.shape.layers.toList[l]? = some spec → .option ∈ spec.access.steps →
    S₀ (ns.part .validityMb l) = .bound
  leafClosed : ∀ vecBind : TokenStream, vecBind.Closed → (s.leafBody vecBind).Closed
  leafBody : ∀ S, Same (walkFamilies ns.kind s.outerSomePrefix) S₀ S → ∀ vecBind : TokenStream, vecBind.Closed →
    vecBind.Clean S → (s.leafBody vecBind).Clean S
  postClosed : s.leafOffsetsPostPush.Closed
  post : ∀ S, Same (walkFamilies ns.kind s.outerSomePrefix) S₀ S → s.leafOffsetsPostPush.Clean S

namespace ShapeScan

variable {s : ShapeScan} {ns : LayerNamespace} {S₀ S : Names Ident}

theorem buildIter_closed (h : s.Ready ns S₀) (cur : Nat) (inner : List VecLayerSpec) (body : TokenStream)
    {vecBind : TokenStream} (hvec : vecBind.Closed) : (s.buildIter cur inner body vecBind).Closed := by
  unfold buildIter
  split
  · exact h.leafClosed vecBind hvec
  · exact itemLoop_closed _ _ _ _ hvec _

/-- The list of a layer, as it is or past a match on its `Option`s. -/
theorem layerIter_clean {pre : OuterSomePrefix} {cur : Nat} (hat : WalkAt ns pre S₀ cur S)
    (hsome : S (outerSome pre cur) = .free) {expr : TokenStream} {hasOption : Bool} {validityMb : Ident}
    (hexpr : expr.Closed) (hclean : expr.Clean S) (hfamily : validityMb.family = .layer ns.kind .validityMb)
    (hvalidity : hasOption = true → S validityMb = .bound) {iter : TokenStream → TokenStream}
    (hclosed : ∀ vecBind : TokenStream, vecBind.Closed → (iter vecBind).Closed)
    (hiter : ∀ (vecBind : TokenStream) (T : Names Ident), vecBind.Closed → vecBind.Clean T → WalkAt ns pre S₀ cur T →
      (iter vecBind).Clean T) :
    let innerIter := if hasOption then
        matchOption expr (.own (outerSome pre cur)) (use [validityMb] ++ iter (use [outerSome pre cur])) (use [validityMb])
      else iter expr
    innerIter.Clean S ∧ innerIter.exit S = S := by
  cases hasOption with
  | false => exact ⟨hiter expr S hexpr hclean hat, hclosed expr hexpr S⟩
  | true =>
    have hmb : S validityMb = .bound := hvalidity rfl
    have hne : validityMb ≠ outerSome pre cur := by rintro rfl; cases hfamily
    dsimp only
    rw [if_pos rfl, clean_matchOption, exit_matchOption, hexpr S, Code.clean_append]
    refine ⟨⟨hclean, ⟨hsome, ?_, ?_⟩, by simp [hmb]⟩, rfl⟩
    · simp [Function.update_of_ne hne, hmb]
    · exact hiter _ _ (fun _ => by simp) (by simp) hat.bindSome

/-- A list is closed by the count of what is below it. -/
theorem closeList_clean {innerIter post : TokenStream} {offsets : Ident} (hinner : innerIter.Clean S)
    (hexit : innerIter.exit S = S)
    (hclosed : post.Closed) (hpost : post.Clean S) (hoffset : S listOffset = .free) (hoffsets : S offsets = .bound) :
    (innerIter ++ letIn listOffset (listOffsetI64Expr post) ++ use [offsets, listOffset]).Clean S := by
  have hne : offsets ≠ listOffset := by rintro rfl; rw [hoffset] at hoffsets; cases hoffsets
  simp [listOffsetI64Expr, hinner, hexit, hclosed S, hpost, hoffset, Function.update_of_ne hne, hoffsets]

/-- The layers from `cur` on, by induction on them: the names they bind are free, and those
    they read are out of the way of what the layers above bound. -/
theorem buildLayer_clean (h : s.Ready ns S₀) : ∀ (layers : List VecLayerSpec) (cur : Nat) (bind : TokenStream)
    (S : Names Ident),
    s.shape.layers.toList.drop cur = layers → WalkAt ns s.outerSomePrefix S₀ cur S →
      S (outerSome s.outerSomePrefix cur) = .free → bind.Closed → bind.Clean S → (s.buildLayer layers cur bind).Clean S := by
  intro layers
  induction layers with
  | nil => intro cur bind S _ _ _ _ _; trivial
  | cons spec inner ih =>
    intro cur bind S hdrop hat hsome hbind hclean
    obtain ⟨hspec, hinner, hdepth⟩ := drop_layers hdrop
    obtain ⟨hexpr, haccess⟩ := wraps_accessChainToRef bind spec.access hbind
    have hparam : S collapseOptionParam = .free := by rw [hat.same _ (by simp [walkFamilies]), h.param]
    have hoffset : S listOffset = .free := by rw [hat.same _ (by simp [walkFamilies]), h.offset]
    have hoffsets : ∀ l < s.shape.depth, S (ns.part .offsets l) = .bound := fun l hl => by
      rw [hat.same _ (by simp [walkFamilies]), h.offsets l hl]
    have hiter : ∀ (vecBind : TokenStream) (T : Names Ident), vecBind.Closed → vecBind.Clean T →
        WalkAt ns s.outerSomePrefix S₀ cur T →
          (s.buildIter cur inner (s.buildLayer inner (cur + 1) (use [(s.layers (cur + 1)).bind])) vecBind).Clean T := by
      intro vecBind T hvec hvecClean hatT
      unfold buildIter
      split
      · exact h.leafBody T hatT.same vecBind hvec hvecClean
      · rw [h.layers]
        refine itemLoop_clean s.projection hatT h.param hvec hvecClean fun U hatU hfree hbound => ?_
        exact ih (cur + 1) _ U hinner hatU hfree (fun _ => by simp) (by simp [hbound])
    have hvalidity : (accessChainToRef bind spec.access).hasOption = true → S (ns.part .validityMb cur) = .bound := by
      rw [accessChainToRef_hasOption, decide_eq_true_eq, hat.same _ (by simp [walkFamilies])]
      exact h.validity cur spec hspec
    obtain ⟨hinnerIter, hexit⟩ := layerIter_clean hat hsome hexpr (haccess S hparam hclean) rfl hvalidity
      (fun _ => buildIter_closed h cur inner _) hiter
    obtain ⟨hpostClosed, hpost⟩ : (if inner.isEmpty then s.leafOffsetsPostPush else use [ns.part .offsets (cur + 1)]).Closed ∧
        (if inner.isEmpty then s.leafOffsetsPostPush else use [ns.part .offsets (cur + 1)]).Clean S := by
      cases inner with
      | nil => exact ⟨h.postClosed, h.post S hat.same⟩
      | cons below inner =>
        rw [List.length_cons] at hdepth
        exact ⟨fun _ => by simp, by simp [hoffsets (cur + 1) (by omega)]⟩
    rw [buildLayer, h.layers]
    rw [h.layers] at hinnerIter hexit
    exact closeList_clean hinnerIter hexit hpostClosed hpost hoffset (hoffsets cur (by omega))

@[simp] theorem build_exit (s : ShapeScan) (S : Names Ident) : s.build.exit S = S := by simp [build]

theorem build_clean (h : s.Ready ns S₀) (hstart : WalkStart ns s.outerSomePrefix s.access S₀) : s.build.Clean S₀ := by
  unfold build
  rw [clean_forIn]
  refine ⟨by simp [hstart.items], ?_, ?_⟩
  · exact hstart.free _ (by simp [walkFamilies])
  · exact buildLayer_clean h _ 0 _ _ rfl hstart.rows.1 hstart.rows.2 hstart.accessClosed hstart.access

end ShapeScan

/-! ### Precount -/

/-- What a precount finds inside its loop over the rows. -/
structure ShapePrecount.Ready (s : ShapePrecount) (ns : LayerNamespace) (S₀ : Names Ident) : Prop where
  layers : s.layers = .new ns
  param : S₀ collapseOptionParam = .free
  total : S₀ s.totalCounter = .bound
  totalFamily : s.totalCounter.family ∉ walkFamilies ns.kind s.outerSomePrefix
  counters : ∀ l, l + 1 < s.shape.depth → S₀ (s.layerCounters l) = .bound
  countersFamily : ∀ l, (s.layerCounters l).family ∉ walkFamilies ns.kind s.outerSomePrefix

namespace ShapePrecount

variable {s : ShapePrecount} {ns : LayerNamespace} {S₀ S : Names Ident}

theorem buildIter_closed (s : ShapePrecount) (cur : Nat) (inner : List VecLayerSpec) (body : TokenStream)
    {vecBind : TokenStream} (hvec : vecBind.Closed) : (s.buildIter cur inner body vecBind).Closed := by
  intro S
  unfold buildIter
  split
  · simp [hvec S]
  · exact itemLoop_closed _ _ _ _ hvec _ S

theorem buildLayer_closed (s : ShapePrecount) (layers : List VecLayerSpec) (cur : Nat) {bind : TokenStream}
    (hbind : bind.Closed) :
    (s.buildLayer layers cur bind).Closed := by
  intro S
  cases layers with
  | nil => rfl
  | cons spec inner =>
    have hexpr := (wraps_accessChainToRef bind spec.access hbind).1
    unfold buildLayer
    dsimp only
    split
    · simp [hexpr S]
    · exact s.buildIter_closed cur inner _ hexpr S

theorem buildLayer_clean (h : s.Ready ns S₀) : ∀ (layers : List VecLayerSpec) (cur : Nat) (bind : TokenStream)
    (S : Names Ident),
    s.shape.layers.toList.drop cur = layers → WalkAt ns s.outerSomePrefix S₀ cur S →
      S (outerSome s.outerSomePrefix cur) = .free → bind.Closed → bind.Clean S → (s.buildLayer layers cur bind).Clean S := by
  intro layers
  induction layers with
  | nil => intro cur bind S _ _ _ _ _; trivial
  | cons spec inner ih =>
    intro cur bind S hdrop hat hsome hbind hclean
    obtain ⟨-, hinner, hdepth⟩ := drop_layers hdrop
    obtain ⟨hexpr, haccess⟩ := wraps_accessChainToRef bind spec.access hbind
    have hparam : S collapseOptionParam = .free := by rw [hat.same _ (by simp [walkFamilies]), h.param]
    have hiter : ∀ (vecBind : TokenStream) (T : Names Ident), vecBind.Closed → vecBind.Clean T →
        WalkAt ns s.outerSomePrefix S₀ cur T →
          (s.buildIter cur inner (s.buildLayer inner (cur + 1) (use [(s.layers (cur + 1)).bind])) vecBind).Clean T := by
      intro vecBind T hvec hvecClean hatT
      unfold buildIter
      split
      · have htotal : T s.totalCounter = .bound := by rw [hatT.same _ h.totalFamily, h.total]
        simp [htotal, hvecClean]
      · rename_i hne
        rw [h.layers]
        refine itemLoop_clean s.projection hatT h.param hvec hvecClean fun U hatU hfree hbound => ?_
        have hbelow := ih (cur + 1) (use [ns.part .bind (cur + 1)]) U hinner hatU hfree (fun _ => by simp) (by simp [hbound])
        have hlen : inner.length ≠ 0 := fun h0 => hne (List.isEmpty_iff_length_eq_zero.mpr h0)
        have hcounter : U (s.layerCounters cur) = .bound := by
          rw [hatU.same _ (h.countersFamily cur), h.counters cur (by omega)]
        refine Code.clean_append.mpr ⟨hbelow, ?_⟩
        rw [LayerIdents.new_bind, s.buildLayer_closed inner (cur + 1) (fun _ => by simp) U]
        simp [hcounter]
    unfold buildLayer
    dsimp only
    split
    · rw [Code.clean_append, clean_closure, hexpr S]
      exact ⟨haccess S hparam hclean, hsome, hiter _ _ (fun _ => by simp) (by simp) hat.bindSome⟩
    · exact hiter _ S hexpr (haccess S hparam hclean) hat

/-- The precount's loop over the rows. -/
theorem rows_clean (h : s.Ready ns S₀) (hstart : WalkStart ns s.outerSomePrefix s.access S₀) :
    (forIn populatorIter (use [plain .items]) (s.buildLayer s.shape.layers.toList 0 s.access)).Clean S₀ := by
  rw [clean_forIn]
  refine ⟨by simp [hstart.items], ?_, ?_⟩
  · exact hstart.free _ (by simp [walkFamilies])
  · exact buildLayer_clean h _ 0 _ _ rfl hstart.rows.1 hstart.rows.2 hstart.accessClosed hstart.access

end ShapePrecount

end DfDerive.Scoped
