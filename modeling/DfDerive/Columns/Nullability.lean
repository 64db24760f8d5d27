/-
  DfDerive.Columns.Nullability — where columns below `Vec` layers keep validity.

  - `buildLayer_flagged`: the scan writes one validity bit for every list it closes, exactly at
    the layers whose cached count declares a bitmap.
  - `LeafPieces.BitmapUsed`: the same for the leaf: declared, written and frozen together.
  - `DerivedStruct.nullability_agrees`: both hold in every column of an accepted struct,
    because its cached counts say of every chain what the chain itself says.
-/

import DfDerive.Columns.Lists

namespace DfDerive

open Lib

/-! ## Layers -/

/-- A layer's bitmap is there when its cached count says so, with a bit for every closed list. -/
def FlaggedBuf (l : VecLayerSpec) (b : ListBuf) : Prop :=
  b.validity.isSome = l.hasOuterValidity ∧ ∀ bits, b.validity = some bits → bits.length + 1 = b.offsets.length

def Flagged {σ : Type} : (layers : List VecLayerSpec) → Bufs σ layers → Prop
  | [], _ => True
  | l :: layers, (b, st) => FlaggedBuf l b ∧ Flagged layers st

section

variable {σ : Type}

theorem shapeDecls_flagged (leaf : σ) : ∀ layers : List VecLayerSpec,
    Flagged layers (Bufs.init VecLayerSpec.hasOuterValidity leaf layers)
  | [] => trivial
  | l :: layers => by
    refine ⟨⟨?_, fun bits hbits => ?_⟩, shapeDecls_flagged leaf layers⟩
    · cases hl : l.hasOuterValidity <;> simp [ListBuf.empty]
    · cases hl : l.hasOuterValidity
      · rw [ListBuf.empty, hl] at hbits
        cases hbits
      · rw [ListBuf.empty, hl] at hbits
        cases hbits
        rfl

theorem buildIter_flagged {s : ShapeScan σ} {cur : Nat} {inner : List VecLayerSpec}
    {layerBody : Bufs σ inner → Operand → Run (Bufs σ inner)} {st st' : Bufs σ inner} {vec : Operand}
    (hbody : ∀ st bind st', Flagged inner st → layerBody st bind = .ok st' → Flagged inner st') (hst : Flagged inner st)
    (h : s.buildIter cur inner layerBody st vec = .ok st') : Flagged inner st' := by
  cases inner with
  | nil => trivial
  | cons layer inner =>
    obtain ⟨items, -, hloop⟩ := bind_eq_ok.mp h
    refine Runs.foldlM_keeps items st st' (fun st item st' _ hst hstep => ?_) hst hloop
    obtain ⟨bind, -, hstep⟩ := bind_eq_ok.mp hstep
    exact hbody st bind st' hst hstep

/-- A closed list of a layer that declares a bitmap leaves a bit in it. -/
theorem FlaggedBuf.close {l : VecLayerSpec} {b : ListBuf} {bits : List Bool} (h : FlaggedBuf l b)
    (hbits : b.validity = some bits)
    (bit : Bool) (offset : Nat) : FlaggedBuf l ⟨b.offsets ++ [offset], some (bits ++ [bit])⟩ := by
  refine ⟨?_, fun bits' hbits' => ?_⟩
  · rw [← h.1, hbits]
    rfl
  · cases hbits'
    have := h.2 bits hbits
    simp only [List.length_append, List.length_singleton]
    omega

/-- A layer's step keeps the bitmaps of the layer and of the layers below it. -/
theorem buildLayer_flagged (s : ShapeScan σ) : ∀ (layers : List VecLayerSpec) (cur : Nat),
    (∀ l ∈ layers, ∀ base, (accessChainToRef base l.access).hasOption = l.hasOuterValidity) →
      ∀ (st : Bufs σ layers) (bind : Operand) (st' : Bufs σ layers), Flagged layers st →
        s.buildLayer layers cur st bind = .ok st' → Flagged layers st' := by
  intro layers
  induction layers with
  | nil =>
    intro _ _ _ _ _ _ _
    trivial
  | cons l layers ih =>
    rintro cur hagree ⟨b, st⟩ bind ⟨b', st'⟩ ⟨hb, hst⟩ h
    have hbelow := ih (cur + 1) fun l' hl' => hagree l' (List.mem_cons_of_mem _ hl')
    have hoption := hagree l List.mem_cons_self (.ok bind)
    simp only [ShapeScan.buildLayer] at h
    rw [hoption] at h
    cases hflag : l.hasOuterValidity with
    | true =>
      rw [hflag, if_pos rfl] at h
      obtain ⟨o, -, h⟩ := bind_eq_ok.mp h
      obtain ⟨found, -, h⟩ := bind_eq_ok.mp h
      obtain ⟨bits, hbits⟩ := Option.isSome_iff_exists.mp (hb.1.trans hflag)
      cases found with
      | some vec =>
        obtain ⟨b₁, hpush, h⟩ := bind_eq_ok.mp h
        obtain ⟨st₁, hiter, h⟩ := bind_eq_ok.mp h
        obtain ⟨⟨b₂, st₂⟩, hpair, h⟩ := bind_eq_ok.mp h
        cases hpair
        obtain ⟨offset, -, h⟩ := bind_eq_ok.mp h
        cases h
        rw [pushValidity, hbits] at hpush
        cases hpush
        exact ⟨hb.close hbits true offset, buildIter_flagged hbelow hst hiter⟩
      | none =>
        obtain ⟨b₁, hpush, h⟩ := bind_eq_ok.mp h
        obtain ⟨⟨b₂, st₂⟩, hpair, h⟩ := bind_eq_ok.mp h
        cases hpair
        obtain ⟨offset, -, h⟩ := bind_eq_ok.mp h
        cases h
        rw [pushValidity, hbits] at hpush
        cases hpush
        exact ⟨hb.close hbits false offset, hst⟩
    | false =>
      rw [hflag, if_neg Bool.false_ne_true] at h
      obtain ⟨vec, -, h⟩ := bind_eq_ok.mp h
      obtain ⟨st₁, hiter, h⟩ := bind_eq_ok.mp h
      obtain ⟨⟨b₂, st₂⟩, hpair, h⟩ := bind_eq_ok.mp h
      cases hpair
      obtain ⟨offset, -, h⟩ := bind_eq_ok.mp h
      cases h
      refine ⟨⟨hb.1, fun bits hbits => ?_⟩, buildIter_flagged hbelow hst hiter⟩
      have hnone := hb.1
      rw [hflag, hbits] at hnone
      cases hnone

/-- So do the rows of a batch. -/
theorem build_flagged {s : ShapeScan σ} {shape : VecLayers} {access : Operand → Run Operand} {items : List Operand}
    (hagree : ∀ l ∈ shape.layers.toList, ∀ base, (accessChainToRef base l.access).hasOption = l.hasOuterValidity)
    {storage : σ} {st : Bufs σ shape.layers.toList} (h : s.build shape access items (shapeDecls shape storage) = .ok st) :
    Flagged shape.layers.toList st := by
  refine Runs.foldlM_keeps items _ st (fun st it st' _ hst hstep => ?_) (shapeDecls_flagged storage _) h
  obtain ⟨o, -, hstep⟩ := bind_eq_ok.mp hstep
  exact buildLayer_flagged s _ 0 hagree st _ st' hst hstep

/-- The layers frozen with a bitmap are those that were scanned with one. -/
theorem Flagged.frozen : ∀ {layers : List VecLayerSpec} {st : Bufs σ layers}, Flagged layers st →
    shapeLayerWraps layers (layerBufs layers st) = .ok (layerBufs layers st)
  | [], _, _ => rfl
  | l :: layers, (b, st), ⟨hb, hst⟩ => by
    simp only [layerBufs, shapeLayerWraps, hst.frozen]
    have hsome := hb.1
    cases hv : b.validity with
    | some bits =>
      rw [hv] at hsome
      rw [← hsome, freezeValidityBitmap, hv]
      show Except.ok ((⟨b.offsets, some bits⟩ : ListBuf) :: _) = _
      rw [← hv]
    | none =>
      rw [hv] at hsome
      rw [← hsome]
      show Except.ok ((⟨b.offsets, none⟩ : ListBuf) :: _) = _
      rw [← hv]

end

/-! ## Leaves -/

/-- A leaf storage keeps a bitmap when `has` says so: it is declared full, written by every
    absent leaf and by no other one, and goes into the array. -/
structure LeafPieces.BitmapUsed (pieces : LeafPieces) (has : Bool) : Prop where
  declared : ∀ total, (pieces.storage total).validity = if has then mbDeclFilled total true else []
  kept : ∀ s o s', pieces.push s o = .ok s' → (has = true → ∃ v, o.matchOption = .ok (some v)) → s'.validity = s.validity
  written : ∀ s o s', pieces.push s o = .ok s' → has = true → o.matchOption = .ok none →
    ∃ i, bitmapSet s.validity i false = .ok s'.validity
  frozen : ∃ dtype, ∃ values : VecLeafBufs → List Prim, ∀ s,
    pieces.leafArr s = flatArrayNew dtype (values s) (if has then bitmapIntoOption s.validity else none)

theorem flatArrayNew_bare (dtype : ArrowDataType) (values : List Prim) :
    flatArrayNew dtype values none = .ok (.flat dtype values none) :=
  if_pos nofun

theorem numericLeafPieces_bitmapUsed (native : ArrowDataType) (valueExpr : Operand → Run Prim) (has : Bool) :
    (numericLeafPieces native valueExpr has).BitmapUsed has := by
  cases has with
  | false =>
    refine ⟨fun _ => rfl, fun s o s' h _ => ?_, nofun, native, VecLeafBufs.flat, fun s => (flatArrayNew_bare native s.flat).symm⟩
    obtain ⟨p, -, h⟩ := bind_eq_ok.mp h
    cases h
    rfl
  | true =>
    refine ⟨fun _ => rfl, fun s o s' h hpresent => ?_, fun s o s' h _ habsent => ?_, native, VecLeafBufs.flat, fun _ => rfl⟩
    · obtain ⟨v, hv⟩ := hpresent rfl
      obtain ⟨found, hfound, h⟩ := bind_eq_ok.mp h
      rw [hv] at hfound
      cases hfound
      obtain ⟨p, -, h⟩ := bind_eq_ok.mp h
      cases h
      rfl
    · obtain ⟨found, hfound, h⟩ := bind_eq_ok.mp h
      rw [habsent] at hfound
      cases hfound
      obtain ⟨bits, hbits, h⟩ := bind_eq_ok.mp h
      cases h
      exact ⟨_, hbits⟩

theorem viewLeafPieces_bitmapUsed (dtype : ArrowDataType) (empty : Prim)
    (pushValue : VecLeafBufs → Operand → Run (Prim × String)) (has : Bool) :
    (viewLeafPieces dtype empty pushValue has).BitmapUsed has := by
  cases has with
  | false =>
    refine ⟨fun _ => rfl, fun s o s' h _ => ?_, nofun, dtype, VecLeafBufs.viewBuf,
      fun s => (flatArrayNew_bare dtype s.viewBuf).symm⟩
    obtain ⟨p, -, h⟩ := bind_eq_ok.mp h
    cases h
    rfl
  | true =>
    refine ⟨fun _ => rfl, fun s o s' h hpresent => ?_, fun s o s' h _ habsent => ?_, dtype, VecLeafBufs.viewBuf, fun _ => rfl⟩
    · obtain ⟨v, hv⟩ := hpresent rfl
      obtain ⟨found, hfound, h⟩ := bind_eq_ok.mp h
      rw [hv] at hfound
      cases hfound
      obtain ⟨p, -, h⟩ := bind_eq_ok.mp h
      cases h
      rfl
    · obtain ⟨found, hfound, h⟩ := bind_eq_ok.mp h
      rw [habsent] at hfound
      cases hfound
      obtain ⟨bits, hbits, h⟩ := bind_eq_ok.mp h
      cases h
      exact ⟨_, hbits⟩

/-- Writing the bit of a present `bool` leaves its validity alone. -/
theorem boolBit_kept {s s' : VecLeafBufs} {b : Bool} (h : (do
    let values ← if b then bitmapSet s.values s.leafIdx true else .ok s.values
    Except.ok { s with values, leafIdx := s.leafIdx + 1 }) = Except.ok (ε := Fault) s') : s'.validity = s.validity := by
  cases b with
  | false =>
    cases h
    rfl
  | true =>
    obtain ⟨values, -, h⟩ := bind_eq_ok.mp h
    cases h
    rfl

theorem boolLeafPieces_bitmapUsed (has : Bool) : (buildVecLeafPieces .bool has).BitmapUsed has := by
  cases has with
  | false =>
    refine ⟨fun _ => rfl, fun s o s' h _ => ?_, nofun, .boolean, fun s => s.values.map .bool, fun _ => rfl⟩
    obtain ⟨v, -, h⟩ := bind_eq_ok.mp h
    obtain ⟨b, -, h⟩ := bind_eq_ok.mp h
    exact boolBit_kept h
  | true =>
    refine ⟨fun _ => rfl, fun s o s' h hpresent => ?_, fun s o s' h _ habsent => ?_, .boolean,
      fun s => s.values.map .bool, fun _ => rfl⟩
    · obtain ⟨v, hv⟩ := hpresent rfl
      obtain ⟨found, hfound, h⟩ := bind_eq_ok.mp h
      rw [hv] at hfound
      cases hfound
      obtain ⟨b, -, h⟩ := bind_eq_ok.mp h
      exact boolBit_kept h
    · obtain ⟨found, hfound, h⟩ := bind_eq_ok.mp h
      rw [habsent] at hfound
      cases hfound
      obtain ⟨bits, hbits, h⟩ := bind_eq_ok.mp h
      cases h
      exact ⟨_, hbits⟩

theorem buildVecLeafPieces_bitmapUsed (spec : VecLeafSpec) (has : Bool) : (buildVecLeafPieces spec has).BitmapUsed has := by
  cases spec with
  | numeric native valueExpr => exact numericLeafPieces_bitmapUsed native valueExpr has
  | stringLike valueExpr => exact viewLeafPieces_bitmapUsed _ _ _ has
  | binaryLike valueExpr => exact viewLeafPieces_bitmapUsed _ _ _ has
  | bool => exact boolLeafPieces_bitmapUsed has

/-- The slot of a nested element has a position when the cached count says so. -/
theorem nestedPush_positions {has : Bool} {s s' : NestedBufs} {o : Operand} (h : nestedPush has s o = .ok s') :
    s'.positions.length = s.positions.length + if has then 1 else 0 := by
  cases has with
  | false =>
    obtain ⟨v, -, h⟩ := bind_eq_ok.mp h
    cases h
    rfl
  | true =>
    obtain ⟨found, -, h⟩ := bind_eq_ok.mp h
    cases found with
    | some v =>
      obtain ⟨i, -, h⟩ := bind_eq_ok.mp h
      obtain ⟨u, -, h⟩ := bind_eq_ok.mp h
      cases h
      exact List.length_append
    | none =>
      cases h
      exact List.length_append

/-! ## The columns of a struct -/

/-- A shape without layers is optional by its count exactly when it is by its chain. -/
theorem LeafShape.Counted.agrees {s : LeafShape} (h : s.Counted) (base : Run Operand) :
    (accessChainToRef base s.access).hasOption = decide (0 < s.optionLayers) := by
  rw [accessChainToRef_optional, h.optionLayers]

/-- In every column of an accepted struct the cached counts and the chains agree, at every
    layer and at the leaf. So bitmaps are declared, pushed to and frozen together: a scan
    that ends keeps a bit for every list of a layer that declares them and for no other,
    and it pushes to no bitmap that is not declared, which would not be an error of the data. -/
theorem DerivedStruct.nullability_agrees (s : DerivedStruct) :
    List.Forall₂ (fun c r =>
      (∀ leaf, c.shape = .leaf leaf → ∀ base, (accessChainToRef base leaf.access).hasOption = decide (0 < leaf.optionLayers)) ∧
      ∀ vc, c.vecColumn? = some vc → vc.NullabilityAgrees ∧
        (∀ (σ : Type) (push : σ → Operand → Run σ) (len : σ → Nat) (storage : σ) (items : List Operand) st,
          vc.scan items push len storage = .ok st →
            Flagged vc.shape.layers.toList st ∧ shapeLayerWraps vc.shape.layers.toList (layerBufs _ st) = .ok (layerBufs _ st)) ∧
        ∀ (tr : Traits) (leaf : PrimitiveLeaf) (items : List Operand), r.route = .primitive leaf → RowItems items →
          (∀ it ∈ items, r.walk.typed (LeafTyped leaf) it.erase) →
            ∃ counts, vc.precount items = .ok counts ∧
              ∀ f, vc.scan items (buildVecLeafPieces (vecLeafPlan tr leaf).spec vc.shape.hasInnerOption).push
                (leafOffsetsPostPush (vecLeafPlan tr leaf).spec)
                ((buildVecLeafPieces (vecLeafPlan tr leaf).spec vc.shape.hasInnerOption).storage (Counts.total _ counts)) =
                  .error f → f.FromData) s.ir.columns s.refs ∧
    (∀ spec has, (buildVecLeafPieces spec has).BitmapUsed has) ∧
    ∀ has s o s', nestedPush has s o = .ok s' → s'.positions.length = s.positions.length + if has then 1 else 0 := by
  refine ⟨s.each_column fun c r hcr => ⟨fun leaf hleaf base => ?_, fun vc hvc => ?_⟩, buildVecLeafPieces_bitmapUsed,
    fun has s o s' h => nestedPush_positions h⟩
  · have hcounted := hcr.follows.counted
    rw [hleaf] at hcounted
    exact LeafShape.Counted.agrees hcounted base
  · have hagrees := hcr.follows.nullability vc hvc
    refine ⟨hagrees, fun σ push len storage items st h => ?_, fun tr leaf items hroute hrows ht => ?_⟩
    · have hflagged := build_flagged hagrees.layer h
      exact ⟨hflagged, hflagged.frozen⟩
    · obtain ⟨v, read, item, hw⟩ := hcr.follows.scanned vc items hvc hrows ht
      obtain ⟨counts, hcounts, hscan⟩ := hw.primitive_scansAs tr
      refine ⟨counts, hcounts, fun f hf => ?_⟩
      rcases hscan with ⟨g, hg, hdata⟩ | ⟨st, hst, -⟩
      · rw [hf] at hg
        cases hg
        exact hdata
      · rw [hf] at hst
        cases hst

end DfDerive
