/-
  DfDerive.Codegen.ShapeWalkProofs — the walkers' properties (see `DfDerive.Codegen.ShapeWalk`).

  `tree` is the row a value becomes: the layers read outer to inner, raw items at the
  leaves. Scan and precount are the generic row writer and row counter on it
  (`buildLayer_eq`, `precountLayer_eq`), so the scan writes exactly the rows that fit
  (`build_runs`), the precount gives the size of every layer (`precount_eq`), and the
  assembled list series reads back as the rows (`shapeAssembleListStack_runs`).
-/

import DfDerive.Codegen.ShapeWalk

namespace DfDerive

open Lib

/-! ## The row of a value -/

/-- Read a tuple field, then strip pointers. -/
def projectValue (path smartPtrDepth : Nat) : Value → Option Value
  | .tuple vs => (vs[path]?).bind (Value.derefN smartPtrDepth)
  | _ => none

/-- What a projection makes of an item of the parent's innermost list. -/
def projectedValue (p : LayerProjection) (item : Value) : Value :=
  match chainFold p.parentAccess.steps item with
  | none => .none
  | some t =>
    let x := (projectValue p.path p.smartPtrDepth t).getD .none
    if p.parentAccess.optionLayers = 0 then x else .some x

/-- The value bound for layer `cur + 1`. -/
def innerValue (projection : Option LayerProjection) (cur : Nat) (item : Value) : Value :=
  match projection with
  | some p => if cur + 1 = p.layer then projectedValue p item else item
  | none => item

/-- Items of an innermost list go to the leaf body as they are. -/
def nextValue (projection : Option LayerProjection) (cur : Nat) : List VecLayerSpec → Value → Value
  | [], c => c
  | _ :: _, c => innerValue projection cur c

def tree (projection : Option LayerProjection) : List VecLayerSpec → Nat → Value → Nested Value
  | [], _, v => .val v
  | l :: ls, cur, v =>
    match chainFold l.access.steps v with
    | none => .null
    | some u => .list ((below .vec u).map fun c => tree projection ls (cur + 1) (nextValue projection cur ls c))

/-- The item's binding is one the next layer's chain can start from. -/
def Binds (projection : Option LayerProjection) (cur : Nat) : List VecLayerSpec → Value → Prop
  | [], _ => True
  | l :: _, c => ∃ o, innerBind projection cur (.ref (.place c)) = .ok o ∧
      ChainBase l.access.steps o (innerValue projection cur c)

/-- `v` can be walked by the layers `ls`, with raw leaf items satisfying `P`. -/
def Scans (P : Value → Prop) (projection : Option LayerProjection) : List VecLayerSpec → Nat → Value → Prop
  | [], _, v => P v
  | l :: ls, cur, v => HasWord (fun u => ∃ vs, u = .vec vs ∧ ∀ c ∈ vs,
      Binds projection cur ls c ∧ Scans P projection ls (cur + 1) (nextValue projection cur ls c)) l.access.word v

/-- Validity is declared exactly for the layers below an `Option`. -/
def LayersNullable (ls : List VecLayerSpec) : Prop := ∀ l ∈ ls, l.hasOuterValidity = decide (0 < l.access.optionLayers)

theorem VecLayers.Nullable.layers {s : VecLayers} (h : s.Nullable) : LayersNullable s.layers.toList := by
  intro l hl
  have := h.outer l hl
  simp only [VecLayerSpec.hasOuterValidity, this]

/-- How a walkable value starts: an absent list, or a list of walkable items. -/
theorem Scans.cases {P : Value → Prop} {projection : Option LayerProjection} {l : VecLayerSpec} {ls : List VecLayerSpec}
    {cur : Nat} {v : Value} (h : Scans P projection (l :: ls) cur v) :
    (∃ vs, chainFold l.access.steps v = some (.vec vs) ∧
      tree projection (l :: ls) cur v =
        .list (vs.map fun c => tree projection ls (cur + 1) (nextValue projection cur ls c)) ∧
      ∀ c ∈ vs, Binds projection cur ls c ∧ Scans P projection ls (cur + 1) (nextValue projection cur ls c)) ∨
    (chainFold l.access.steps v = none ∧ .option ∈ l.access.steps ∧ tree projection (l :: ls) cur v = .null) := by
  rcases HasWord.chain l.access.steps h with ⟨u, hu, ⟨vs, rfl, hvs⟩, -, -⟩ | ⟨hn, hopt, -, -⟩
  · refine Or.inl ⟨vs, hu, ?_, hvs⟩
    simp only [tree, hu, below]
  · refine Or.inr ⟨hn, hopt, ?_⟩
    simp only [tree, hn]

theorem tree_shaped {P : Value → Prop} {projection : Option LayerProjection} : ∀ (ls : List VecLayerSpec) (cur : Nat)
    (v : Value), LayersNullable ls → Scans P projection ls cur v →
      Shaped VecLayerSpec.hasOuterValidity ls (tree projection ls cur v) := by
  intro ls
  induction ls with
  | nil => intro _ _ _ _; exact trivial
  | cons l ls ih =>
    intro cur v hn h
    rcases h.cases with ⟨vs, -, ht, hvs⟩ | ⟨-, hopt, ht⟩
    · rw [ht]
      intro t htm
      obtain ⟨c, hc, rfl⟩ := List.mem_map.mp htm
      exact ih _ _ (fun l hl => hn l (List.mem_cons_of_mem _ hl)) (hvs c hc).2
    · rw [ht]
      show l.hasOuterValidity = true
      rw [hn l List.mem_cons_self]
      simpa using optionLayers_pos.mpr hopt

theorem tree_leaves {P : Value → Prop} {projection : Option LayerProjection} : ∀ (ls : List VecLayerSpec) (cur : Nat)
    (v : Value), Scans P projection ls cur v → AllLeaves P ls (tree projection ls cur v) := by
  intro ls
  induction ls with
  | nil => intro _ _ h; exact h
  | cons l ls ih =>
    intro cur v h
    rcases h.cases with ⟨vs, -, ht, hvs⟩ | ⟨-, -, ht⟩
    · rw [ht]
      intro t htm
      obtain ⟨c, hc, rfl⟩ := List.mem_map.mp htm
      exact ih _ _ (hvs c hc).2
    · rw [ht]
      exact trivial

/-! ## One layer -/

theorem vecIter_refTo {o : Operand} {vs : List Value} (h : o.RefTo (.vec vs)) :
    o.vecIter = .ok (vs.map fun x => .ref (.place x)) := by
  simp only [Operand.vecIter, h.strip, Value.derefAll]

/-- The chain of a layer, evaluated: no list, or the list's items. -/
theorem layerAccess_spec {P : Value → Prop} {projection : Option LayerProjection} {l : VecLayerSpec}
    {ls : List VecLayerSpec} {cur : Nat} {v : Value} {o : Operand} (h : Scans P projection (l :: ls) cur v)
    (hb : ChainBase l.access.steps o v) :
    (accessChainToRef (.ok o) l.access).hasOption = decide (0 < l.access.optionLayers) ∧
      ∃ e, (accessChainToRef (.ok o) l.access).expr = .ok e ∧
        ChainValue Operand.MatchesTo l.access.steps v e :=
  accessChainToRef_spec hb h

section

variable {σ : Type} {s : ShapeScan σ} {push : σ → Operand → Run σ} {P : Value → Prop}

/-- The generic row writer the scan amounts to. -/
abbrev ShapeScan.row (push : σ → Operand → Run σ) (len : σ → Nat) (ls : List VecLayerSpec) :
    Bufs σ ls → Nested Value → Run (Bufs σ ls) :=
  pushRow (fun s v => push s (.ref (.place v))) len listOffsetI64Expr ls

theorem pushValidity_eq {b : ListBuf} (h : b.validity.isSome = true) (bit : Bool) :
    pushValidity b bit = .ok ⟨b.offsets, b.validity.map (· ++ [bit])⟩ := by
  obtain ⟨bits, hb⟩ := Option.isSome_iff_exists.mp h
  simp only [pushValidity, hb, Option.map_some]

/-- Closing a layer, as the scan writes it. -/
theorem closeRow_eq {len : σ → Nat} {ls : List VecLayerSpec} (b : ListBuf) (bit : Bool) (inner : Bufs σ ls) :
    (do let offset ← listOffsetI64Expr (Bufs.count len ls inner)
        Except.ok (({ offsets := b.offsets ++ [offset], validity := b.validity.map (· ++ [bit]) } : ListBuf), inner)) =
      closeRow len listOffsetI64Expr ls b bit inner := rfl

theorem closeRow_noValidity {len : σ → Nat} {ls : List VecLayerSpec} {b : ListBuf} (hb : b.validity = none) (bit : Bool)
    (inner : Bufs σ ls) :
    (do let offset ← listOffsetI64Expr (Bufs.count len ls inner)
        Except.ok ({ b with offsets := b.offsets ++ [offset] }, inner)) =
      closeRow len listOffsetI64Expr ls b bit inner := by
  simp only [closeRow, ListBuf.push, hb, Option.map_none]

/-- The items of a list, walked. -/
theorem buildIter_eq (hbody : s.leafBody = forEach push) {ls : List VecLayerSpec} {cur : Nat} {vs : List Value}
    {o : Operand} (ho : o.RefTo (.vec vs))
    (ih : ∀ l ls', ls = l :: ls' → ∀ st v o, Declared VecLayerSpec.hasOuterValidity ls st →
      Scans P s.projection ls (cur + 1) v → ChainBase l.access.steps o v →
        s.buildLayer ls (cur + 1) st o = ShapeScan.row push s.leafOffsetsPostPush ls st (tree s.projection ls (cur + 1) v))
    (hvs : ∀ c ∈ vs, Binds s.projection cur ls c ∧ Scans P s.projection ls (cur + 1) (nextValue s.projection cur ls c))
    {st : Bufs σ ls} (hd : Declared VecLayerSpec.hasOuterValidity ls st) :
    s.buildIter cur ls (s.buildLayer ls (cur + 1)) st o =
      (vs.map fun c => tree s.projection ls (cur + 1) (nextValue s.projection cur ls c)).foldlM
        (ShapeScan.row push s.leafOffsetsPostPush ls) st := by
  cases ls with
  | nil =>
    show s.leafBody st o = _
    rw [hbody]
    simp only [forEach, vecIter_refTo ho, ok_bind]
    exact List.foldlM_map.trans (pushLeaves_eq (fun v => v) vs st).symm
  | cons l ls =>
    show (do
      let items ← o.vecIter
      items.foldlM (fun st item => do s.buildLayer (l :: ls) (cur + 1) st (← innerBind s.projection cur item)) st) = _
    simp only [vecIter_refTo ho, ok_bind, List.foldlM_map]
    refine Runs.foldlM_congr (I := Declared VecLayerSpec.hasOuterValidity (l :: ls)) vs st ?_ ?_ hd
    · intro st c hc hd
      obtain ⟨⟨p, hp, hbase⟩, hscan⟩ := hvs c hc
      simp only [hp, ok_bind]
      exact ih l ls rfl st _ p hd hscan hbase
    · intro st c st' _ hd h
      exact pushRow_declared (l :: ls) st st' _ hd h

/-- One layer, the layers below it being walked as rows. -/
theorem buildLayer_step (hbody : s.leafBody = forEach push) {ls : List VecLayerSpec} {l : VecLayerSpec} {cur : Nat}
    (ih : ∀ l' ls', ls = l' :: ls' → ∀ st v o, Declared VecLayerSpec.hasOuterValidity ls st →
      Scans P s.projection ls (cur + 1) v → ChainBase l'.access.steps o v →
        s.buildLayer ls (cur + 1) st o = ShapeScan.row push s.leafOffsetsPostPush ls st (tree s.projection ls (cur + 1) v))
    {st : Bufs σ (l :: ls)} {v : Value} {o : Operand} (hn : LayersNullable (l :: ls))
    (hd : Declared VecLayerSpec.hasOuterValidity (l :: ls) st) (hv : Scans P s.projection (l :: ls) cur v)
    (hb : ChainBase l.access.steps o v) :
    s.buildLayer (l :: ls) cur st o =
      ShapeScan.row push s.leafOffsetsPostPush (l :: ls) st (tree s.projection (l :: ls) cur v) := by
  obtain ⟨b, inner⟩ := st
  obtain ⟨hvalid, hd⟩ := hd
  obtain ⟨hopt, e, he, hval⟩ := layerAccess_spec hv hb
  rw [hn l List.mem_cons_self] at hvalid
  simp only [ShapeScan.buildLayer, hopt, he]
  by_cases hpos : 0 < l.access.optionLayers
  · have hsome : b.validity.isSome = true := by rw [hvalid]; exact decide_eq_true hpos
    have hmatch := hval.optional (optionLayers_pos.mp hpos)
    simp only [decide_eq_true hpos, ite_true]
    rcases hv.cases with ⟨vs, hvs, ht, hitems⟩ | ⟨hnone, -, ht⟩
    · rw [hvs] at hmatch
      obtain ⟨p, hp, href⟩ := hmatch
      have hiter := buildIter_eq hbody href ih hitems hd
      simp only [ht, ok_bind, hp, pushValidity_eq hsome, hiter]
      cases hrow : (vs.map fun c => tree s.projection ls (cur + 1) (nextValue s.projection cur ls c)).foldlM
        (ShapeScan.row push s.leafOffsetsPostPush ls) inner with
      | error err => simp only [ShapeScan.row, pushRow, pushList, hrow, error_bind]; rfl
      | ok inner' =>
        simp only [ShapeScan.row, pushRow, pushList, hrow, ok_bind]
        exact closeRow_eq b true inner'
    · rw [hnone] at hmatch
      have hm : e.matchOption = .ok none := hmatch
      simp only [ht, ok_bind, hm, pushValidity_eq hsome]
      exact closeRow_eq b false inner
  · have hnone : b.validity = none := by
      rw [decide_eq_false hpos] at hvalid
      exact Option.not_isSome_iff_eq_none.mp (by simp [hvalid])
    obtain ⟨u, hu, href⟩ := hval.bare (fun hc => hpos (optionLayers_pos.mpr hc))
    simp only [decide_eq_false hpos, Bool.false_eq_true, ite_false]
    rcases hv.cases with ⟨vs, hvs, ht, hitems⟩ | ⟨hn', -, -⟩
    · rw [hvs] at hu
      cases hu
      have hiter := buildIter_eq hbody href ih hitems hd
      simp only [ht, ok_bind, hiter]
      cases hrow : (vs.map fun c => tree s.projection ls (cur + 1) (nextValue s.projection cur ls c)).foldlM
        (ShapeScan.row push s.leafOffsetsPostPush ls) inner with
      | error err => simp only [ShapeScan.row, pushRow, pushList, hrow, error_bind]; rfl
      | ok inner' =>
        simp only [ShapeScan.row, pushRow, pushList, hrow, ok_bind]
        exact closeRow_noValidity hnone true inner'
    · rw [hn'] at hu; cases hu

/-- The scan of one row writes its tree. -/
theorem buildLayer_eq (hbody : s.leafBody = forEach push) : ∀ (ls : List VecLayerSpec) (l : VecLayerSpec) (cur : Nat)
    (st : Bufs σ (l :: ls)) (v : Value) (o : Operand), LayersNullable (l :: ls) →
      Declared VecLayerSpec.hasOuterValidity (l :: ls) st → Scans P s.projection (l :: ls) cur v →
        ChainBase l.access.steps o v →
          s.buildLayer (l :: ls) cur st o =
            ShapeScan.row push s.leafOffsetsPostPush (l :: ls) st (tree s.projection (l :: ls) cur v) := by
  intro ls
  induction ls with
  | nil =>
    intro l cur st v o hn hd hv hb
    exact buildLayer_step hbody (fun _ _ h => by cases h) hn hd hv hb
  | cons l' ls ih =>
    intro l cur st v o hn hd hv hb
    refine buildLayer_step hbody (fun l'' ls' h st v o hd hv hb => ?_) hn hd hv hb
    obtain ⟨rfl, rfl⟩ := List.cons.inj h
    exact ih l' (cur + 1) st v o (fun l hl => hn l (List.mem_cons_of_mem _ hl)) hd hv hb

/-- The rows of a batch. -/
abbrev rowsOf (projection : Option LayerProjection) (shape : VecLayers) (read : Operand → Value) (items : List Operand) :
    List (Nested Value) :=
  items.map fun it => tree projection shape.layers.toList 0 (read it)

/-- `access` reads, from every item, a value the shape can walk. -/
def Walks (P : Value → Prop) (projection : Option LayerProjection) (shape : VecLayers) (access : Operand → Run Operand)
    (read : Operand → Value) (items : List Operand) : Prop :=
  ∀ it ∈ items, ∃ o, access it = .ok o ∧ ChainBase shape.layers.first.access.steps (.ref o) (read it) ∧
    Scans P projection shape.layers.toList 0 (read it)

theorem Walks.shaped {projection : Option LayerProjection} {shape : VecLayers} {access : Operand → Run Operand}
    {read : Operand → Value} {items : List Operand} (h : Walks P projection shape access read items) (hn : shape.Nullable) :
    ∀ t ∈ rowsOf projection shape read items, Shaped VecLayerSpec.hasOuterValidity shape.layers.toList t := by
  intro t ht
  obtain ⟨it, hit, rfl⟩ := List.mem_map.mp ht
  obtain ⟨o, -, -, hs⟩ := h it hit
  exact tree_shaped _ _ _ hn.layers hs

/-- The scan of a batch writes its rows. -/
theorem build_eq (hbody : s.leafBody = forEach push) {shape : VecLayers} (hn : shape.Nullable)
    {access : Operand → Run Operand} {read : Operand → Value} {items : List Operand}
    (hw : Walks P s.projection shape access read items) {st : Bufs σ shape.layers.toList}
    (hd : Declared VecLayerSpec.hasOuterValidity shape.layers.toList st) :
    s.build shape access items st =
      (rowsOf s.projection shape read items).foldlM
        (ShapeScan.row push s.leafOffsetsPostPush shape.layers.toList) st := by
  rw [List.foldlM_map]
  refine Runs.foldlM_congr (I := Declared VecLayerSpec.hasOuterValidity shape.layers.toList) items _ ?_ ?_ hd
  · intro st it hit hd
    obtain ⟨o, ho, hb, hs⟩ := hw it hit
    simp only [ho, ok_bind]
    exact buildLayer_eq hbody shape.layers.rest shape.layers.first 0 st (read it) (.ref o) hn.layers hd hs hb
  · intro st it st' _ hd h
    exact pushRow_declared _ st st' _ hd h

/-- The scan of a batch succeeds exactly when the rows fit, and the buffers then hold them. -/
theorem build_runs (hbody : s.leafBody = forEach push) {Abs : σ → List Value → Prop} {R F : List Value → Prop}
    (hp : LeafPush Fault.FromData (fun s v => push s (.ref (.place v))) s.leafOffsetsPostPush Abs R F P)
    {shape : VecLayers} (hn : shape.Nullable) {access : Operand → Run Operand} {read : Operand → Value}
    {items : List Operand} (hw : Walks P s.projection shape access read items) {leaf : σ} (h0 : Abs leaf []) (hF : F [])
    (hr : R (leaves shape.layers.toList (rowsOf s.projection shape read items))) :
    Run.Spec (s.build shape access items (shapeDecls shape leaf))
      (Fits i64Max F shape.layers.toList (rowsOf s.projection shape read items))
      (Holds VecLayerSpec.hasOuterValidity Abs shape.layers.toList · (rowsOf s.projection shape read items)) := by
  have hd : Declared VecLayerSpec.hasOuterValidity shape.layers.toList (shapeDecls shape leaf) :=
    (Holds.init h0 shape.layers.toList).declared
  rw [build_eq hbody hn hw hd]
  refine pushRows_runs hp listOffsetI64Expr_runs (hw.shaped hn) (fun t ht => ?_) hr h0 hF
  obtain ⟨it, hit, rfl⟩ := List.mem_map.mp ht
  obtain ⟨o, -, -, hs⟩ := hw it hit
  exact tree_leaves _ _ _ hs

end

/-! ## Precount -/

theorem precountIter_eq {P : Value → Prop} {projection : Option LayerProjection} {ls : List VecLayerSpec} {cur : Nat}
    {vs : List Value} {o : Operand} (ho : o.RefTo (.vec vs))
    (ih : ∀ l ls', ls = l :: ls' → ∀ c v o, Scans P projection ls (cur + 1) v → ChainBase l.access.steps o v →
      ShapePrecount.buildLayer projection ls (cur + 1) c o = .ok (countRow ls c (tree projection ls (cur + 1) v)))
    (hvs : ∀ c ∈ vs, Binds projection cur ls c ∧ Scans P projection ls (cur + 1) (nextValue projection cur ls c))
    (c : Nat × Counts ls) :
    ShapePrecount.buildIter projection cur ls (ShapePrecount.buildLayer projection ls (cur + 1)) c o =
      .ok (countElems ls (countRow ls) c (vs.map fun c => tree projection ls (cur + 1) (nextValue projection cur ls c))) := by
  cases ls with
  | nil =>
    obtain ⟨n, c⟩ := c
    rw [countElems_leaves, List.length_map]
    simp only [ShapePrecount.buildIter, Operand.vecLen, vecIter_refTo ho, ok_bind, List.length_map]
  | cons l ls =>
    simp only [ShapePrecount.buildIter, vecIter_refTo ho, ok_bind, List.foldlM_map, countElems, List.foldl_map]
    clear ho
    induction vs generalizing c with
    | nil => rfl
    | cons v vs ihvs =>
      obtain ⟨⟨p, hp, hb⟩, hs⟩ := hvs v List.mem_cons_self
      rw [List.foldlM_cons, List.foldl_cons]
      simp only [hp, ok_bind]
      have hv : ShapePrecount.buildLayer projection (l :: ls) (cur + 1) c.2 p =
          .ok (countRow (l :: ls) c.2 (tree projection (l :: ls) (cur + 1) (nextValue projection cur (l :: ls) v))) :=
        ih l ls rfl _ _ _ hs hb
      simp only [hv, ok_bind]
      exact ihvs (fun c hc => hvs c (List.mem_cons_of_mem _ hc)) _

theorem precountLayer_step {P : Value → Prop} {projection : Option LayerProjection} {ls : List VecLayerSpec}
    {l : VecLayerSpec} {cur : Nat}
    (ih : ∀ l' ls', ls = l' :: ls' → ∀ c v o, Scans P projection ls (cur + 1) v → ChainBase l'.access.steps o v →
      ShapePrecount.buildLayer projection ls (cur + 1) c o = .ok (countRow ls c (tree projection ls (cur + 1) v)))
    {c : Counts (l :: ls)} {v : Value} {o : Operand} (hv : Scans P projection (l :: ls) cur v)
    (hb : ChainBase l.access.steps o v) :
    ShapePrecount.buildLayer projection (l :: ls) cur c o =
      .ok (countRow (l :: ls) c (tree projection (l :: ls) cur v)) := by
  obtain ⟨hopt, e, he, hval⟩ := layerAccess_spec hv hb
  simp only [ShapePrecount.buildLayer, hopt, he, ok_bind]
  by_cases hpos : 0 < l.access.optionLayers
  · have hmatch := hval.optional (optionLayers_pos.mp hpos)
    simp only [decide_eq_true hpos]
    rcases hv.cases with ⟨vs, hvs, ht, hitems⟩ | ⟨hnone, -, ht⟩
    · rw [hvs] at hmatch
      obtain ⟨p, hp, href⟩ := hmatch
      simp only [hp, ok_bind, ht]
      exact precountIter_eq href ih hitems c
    · rw [hnone] at hmatch
      have hm : e.matchOption = .ok none := hmatch
      simp only [hm, ok_bind, ht]
      rfl
  · obtain ⟨u, hu, href⟩ := hval.bare (fun hc => hpos (optionLayers_pos.mpr hc))
    simp only [decide_eq_false hpos, Bool.false_eq_true]
    rcases hv.cases with ⟨vs, hvs, ht, hitems⟩ | ⟨hn', -, -⟩
    · rw [hvs] at hu
      cases hu
      rw [ht]
      exact precountIter_eq href ih hitems c
    · rw [hn'] at hu; cases hu

/-- The precount of one row counts its tree. -/
theorem precountLayer_eq {P : Value → Prop} {projection : Option LayerProjection} : ∀ (ls : List VecLayerSpec)
    (l : VecLayerSpec) (cur : Nat) (c : Counts (l :: ls)) (v : Value) (o : Operand), Scans P projection (l :: ls) cur v →
      ChainBase l.access.steps o v →
        ShapePrecount.buildLayer projection (l :: ls) cur c o =
          .ok (countRow (l :: ls) c (tree projection (l :: ls) cur v)) := by
  intro ls
  induction ls with
  | nil =>
    intro l cur c v o hv hb
    exact precountLayer_step (fun _ _ h => by cases h) hv hb
  | cons l' ls ih =>
    intro l cur c v o hv hb
    refine precountLayer_step (fun l'' ls' h c v o hv hb => ?_) hv hb
    obtain ⟨rfl, rfl⟩ := List.cons.inj h
    exact ih l' (cur + 1) c v o hv hb

/-- The precount of a batch gives the size of every layer of its rows. -/
theorem precount_eq {P : Value → Prop} {projection : Option LayerProjection} {shape : VecLayers}
    {access : Operand → Run Operand} {read : Operand → Value} {items : List Operand}
    (hw : Walks P projection shape access read items) :
    ShapePrecount.build projection shape access items =
      .ok (levels shape.layers.toList (rowsOf projection shape read items)) := by
  rw [← countRows_eq]
  unfold ShapePrecount.build
  generalize Counts.zero shape.layers.toList = c
  induction items generalizing c with
  | nil => rfl
  | cons it items ih =>
    obtain ⟨o, ho, hb, hs⟩ := hw it List.mem_cons_self
    rw [List.foldlM_cons, rowsOf, List.map_cons, List.foldl_cons]
    have hrow := precountLayer_eq shape.layers.rest shape.layers.first 0 c (read it) (.ref o) hs hb
    simp only [ho, ok_bind]
    rw [show ShapePrecount.buildLayer projection shape.layers.toList 0 c (.ref o) = _ from hrow]
    exact ih (fun it' h' => hw it' (List.mem_cons_of_mem _ h')) _

/-! ## List assembly -/

/-- `n` list layers around an Arrow dtype. -/
def listArrow : Nat → ArrowDataType → ArrowDataType
  | 0, d => d
  | n + 1, d => .largeList (listArrow n d)

theorem physicalArrow_wrapListLayers (dtype : DataType) : ∀ n,
    (wrapListLayers dtype n).physicalArrow = listArrow n dtype.physicalArrow
  | 0 => rfl
  | n + 1 => congrArg ArrowDataType.largeList (physicalArrow_wrapListLayers dtype n)

/-- A freeze that keeps well-formed offsets. -/
def Freezes (freeze : List Nat → Run (List Nat)) : Prop :=
  ∀ offsets : List Nat, offsets ≠ [] → offsets.Pairwise (· ≤ ·) → freeze offsets = .ok offsets

theorem freezes_move : Freezes freezeMove := by
  intro offsets hne hs
  show offsetsTryFrom offsets = _
  rw [offsetsTryFrom, if_pos ⟨hne, hs⟩]

theorem freezes_clone : Freezes freezeClone := fun _ _ _ => rfl

theorem wrapLayer_ok {freeze : List Nat → Run (List Nat)} (hf : Freezes freeze) {b : ListBuf} {prev : ArrowArray}
    (h : b.WF prev.len) :
    wrapLayer freeze b prev = .ok (.largeList b.offsets prev b.validity) := by
  simp only [wrapLayer, hf b.offsets h.ne_nil h.sorted, ok_bind, largeListNew]
  rw [if_neg (by simp), if_neg (by rw [h.last]; simp), if_pos h.bits]

/-- `n` list layers, each with offsets that end where its values do. -/
def ArrowArray.Exact : Nat → ArrowArray → Prop
  | 0, _ => True
  | n + 1, .largeList offsets values _ => offsets.getLast? = some values.len ∧ Exact n values
  | _ + 1, _ => False

/-- The stack of list arrays over a leaf array holding every leaf. -/
theorem stack_ok {freeze : List Nat → Run (List Nat)} (hf : Freezes freeze) {σ : Type} {nullable : VecLayerSpec → Bool}
    {Abs : σ → List Value → Prop} {seed : ArrowArray} : ∀ {ls : List VecLayerSpec} {st : Bufs σ ls}
      {xs : List (Nested Value)}, Holds nullable Abs ls st xs → seed.len = (leaves ls xs).length →
        ∃ a, (layerBufs ls st).foldrM (wrapLayer freeze) seed = .ok a ∧ a.dtype = listArrow ls.length seed.dtype ∧
          a.cells = Bufs.read (fun _ => seed.cells) ls st ∧ a.Exact ls.length ∧ a.len = xs.length := by
  intro ls
  induction ls with
  | nil =>
    intro st xs h hlen
    refine ⟨seed, rfl, rfl, rfl, trivial, ?_⟩
    rw [hlen]
    have := congrArg List.length h.2
    simpa [leaves] using this.symm
  | cons l ls ih =>
    intro st xs h hlen
    obtain ⟨b, inner⟩ := st
    obtain ⟨hinner, hwf, hrows, -⟩ := h
    obtain ⟨a, ha, hd, hc, hexact, hl⟩ := ih hinner hlen
    have hwf' : b.WF a.len := by rw [hl]; exact hwf
    refine ⟨.largeList b.offsets a b.validity, ?_, by rw [ArrowArray.dtype, hd]; rfl, ?_, ⟨hwf'.last, hexact⟩, ?_⟩
    · rw [layerBufs, List.foldrM_cons, ha]
      exact wrapLayer_ok hf hwf'
    · rw [ArrowArray.cells, hc]
      rfl
    · rw [ArrowArray.len, ArrowArray.cells, ListBuf.rows_length hwf', ← ListBuf.rows_length hwf (children xs), hrows]

theorem layerBufs_length {σ : Type} : ∀ (ls : List VecLayerSpec) (st : Bufs σ ls), (layerBufs ls st).length = ls.length
  | [], _ => rfl
  | _ :: ls, (_, st) => congrArg (· + 1) (layerBufs_length ls st)

/-- The assembled series has the declared list dtype and reads back as the rows; no list
    array is handed over with values past its last offset. -/
theorem shapeAssembleListStack_runs {freeze : List Nat → Run (List Nat)} (hf : Freezes freeze) {σ : Type}
    {nullable : VecLayerSpec → Bool} {Abs : σ → List Value → Prop} {seed : ArrowArray} {dtype : DataType}
    (hseed : seed.dtype = dtype.physicalArrow) {l : VecLayerSpec} {ls : List VecLayerSpec} {st : Bufs σ (l :: ls)}
    {xs : List (Nested Value)} (h : Holds nullable Abs (l :: ls) st xs) (hlen : seed.len = (leaves (l :: ls) xs).length) :
    ∃ s, shapeAssembleListStack freeze seed (layerBufs (l :: ls) st) dtype = .ok s ∧
      s.dtype = wrapListLayers dtype (l :: ls).length ∧ s.chunk.Exact (l :: ls).length ∧
        s.cells = Bufs.read (fun _ => seed.cells) (l :: ls) st := by
  obtain ⟨a, ha, hd, hc, hexact, -⟩ := stack_ok hf h hlen
  have hdt : a.dtype = (DataType.list (wrapListLayers dtype ls.length)).physicalArrow := by
    rw [hd, hseed]
    exact (physicalArrow_wrapListLayers dtype (ls.length + 1)).symm
  have hdepth : (layerBufs (l :: ls) st).length - 1 = ls.length := by rw [layerBufs_length]; rfl
  refine ⟨⟨"", .list (wrapListLayers dtype ls.length), a, hdt⟩, ?_, rfl, hexact, hc⟩
  simp only [shapeAssembleListStack, ha, ok_bind, hdepth, assembleHelper, Series.fromChunksAndDtypeUnchecked]
  rw [if_neg (fun hne => hne hdt), dif_pos hdt]

end DfDerive
