/-
  DfDerive.Codegen.LeafWalk — the emissions over `Vec` layers, along a walk.

  `LeafWalk` says that a shape, with the projection and the leaf expression its scan is
  given, follows a `Walk`: the rows of the scan read back as the walk's cells, the raw items
  hold its leaves, and the layers bound what the walk bounds. The primitive and the nested
  emission are proved once for every such shape (`LeafWalk.primitive`, `LeafWalk.nested`);
  a field's own shape is one (`leafWalk_word`).
-/

import DfDerive.Codegen.NestedProofs
import DfDerive.Spec.Walk

namespace DfDerive

open Lib

/-- The scan of `shape` follows `w`; `expr` binds, for a raw item, the leaf `item` finds. -/
structure LeafWalk (P : Value → Prop) (w : Walk) (expr : Operand → Run Operand) (item : Value → Option Value)
    (projection : Option LayerProjection) (shape : VecLayers) (access : Operand → Run Operand) (read : Operand → Value)
    (items : List Operand) : Prop where
  nullable : shape.Nullable
  walks : Walks (fun v => (∃ o, expr (.ref (.place v)) = .ok o ∧ LeafReads shape.hasInnerOption o (item v)) ∧
    ∀ u, item v = some u → P u) projection shape access read items
  rows : ∀ f : Value → Cell, (rowsOf projection shape read items).map (Nested.bind fun raw => (item raw).elim .null f) =
    (items.map read).map (w.cell f)
  fits : ∀ F : List Value → Prop, Fits i64Max (fun raws => F (raws.map item).reduceOption) shape.layers.toList
    (rowsOf projection shape read items) ↔ w.fits F (items.map read)
  elems : ((leaves shape.layers.toList (rowsOf projection shape read items)).map item).reduceOption =
    (items.map read).flatMap w.leaves
  depth : shape.depth = w.depth

/-- The series of a primitive column of the rows `vs`, one cell a row. -/
def PrimitiveColumn (leaf : PrimitiveLeaf) (cell : Value → Cell) (w : Walk) (name : String) (vs : List Value)
    (out : List Series) : Prop :=
  ∃ s, out = [s] ∧ s.name = name ∧ s.dtype = wrapListLayers leaf.dtype w.depth ∧ s.cells = vs.map (w.cell cell)

theorem Scans.mono {P Q : Value → Prop} {projection : Option LayerProjection} (h : ∀ v, P v → Q v) :
    ∀ (ls : List VecLayerSpec) (cur : Nat) (v : Value), Scans P projection ls cur v → Scans Q projection ls cur v
  | [], _, _, hv => h _ hv
  | _ :: ls, cur, _, hv => HasWord.mono (fun _ ⟨vs, hu, hvs⟩ =>
      ⟨vs, hu, fun c hc => ⟨(hvs c hc).1, Scans.mono h ls (cur + 1) _ (hvs c hc).2⟩⟩) hv

theorem Walks.mono {P Q : Value → Prop} {projection : Option LayerProjection} {shape : VecLayers}
    {access : Operand → Run Operand} {read : Operand → Value} {items : List Operand} (h : ∀ v, P v → Q v)
    (hw : Walks P projection shape access read items) : Walks Q projection shape access read items := by
  intro it hit
  obtain ⟨o, ho, hb, hs⟩ := hw it hit
  exact ⟨o, ho, hb, Scans.mono h _ _ _ hs⟩

section

variable {P : Value → Prop} {w : Walk} {expr : Operand → Run Operand} {item : Value → Option Value}
  {projection : Option LayerProjection} {shape : VecLayers} {access : Operand → Run Operand} {read : Operand → Value}
  {items : List Operand}

theorem mem_present {raws : List Value} {u : Value} : u ∈ (raws.map item).reduceOption ↔ ∃ v ∈ raws, item v = some u := by
  rw [map_reduceOption, List.mem_filterMap]

/-- The emission of a primitive column. -/
theorem LeafWalk.primitive {tr : Traits} {leaf : PrimitiveLeaf} {spec : VecLeafSpec} (hs : SpecReads tr leaf spec)
    (hw : LeafWalk (LeafTyped leaf) w expr item projection shape access read items) :
    Run.Spec
      (pepEmit (lowerToPep spec shape leaf.dtype) (leafLoop expr (buildVecLeafPieces spec shape.hasInnerOption).push)
        projection shape access items)
      (w.fits (AllEncode tr leaf) (items.map read))
      (fun s => s.dtype = wrapListLayers leaf.dtype w.depth ∧ s.cells = (items.map read).map (w.cell (leafCell tr leaf))) := by
  have hwalk : Walks (ReadsItem leaf shape.hasInnerOption expr item) projection shape access read items :=
    hw.walks.mono fun v ⟨⟨o, ho, hr⟩, ht⟩ => ⟨o, ho, hr, ht⟩
  refine Runs.mono (Runs.congr (pepEmit_runs hs hw.nullable hwalk) ?_) fun _ s hs => ⟨?_, ?_⟩
  · rw [← hw.fits]
    refine fits_congr _ _ ⟨fun h u hu => ?_, fun h v hv u hu => h u (mem_present.mpr ⟨v, hv, hu⟩)⟩
    obtain ⟨v, hv, hu⟩ := mem_present.mp hu
    exact h v hv u hu
  · rw [hs.1, hw.depth]
  · rw [hs.2, ← hw.rows]
    refine List.map_congr_left fun t _ => congrArg (Nested.bind · t) (funext fun raw => ?_)
    rw [itemPrim]
    cases item raw with
    | none => rfl
    | some u => exact primCell_encode? tr leaf u

/-- The emission of a nested column. -/
theorem LeafWalk.nested {E : Fault → Prop} {ctb : CollectThenBulk}
    (hw : LeafWalk P w expr item projection shape access read items)
    (hin : ctb.impl.Within E ((items.map read).flatMap w.leaves)) :
    Runs E (nestedVecEmit ctb (leafLoop expr (nestedPush shape.hasInnerOption)) projection shape access items)
      (w.fits (PositionsFit shape.hasInnerOption) (items.map read) ∧
        NestedAnswers ctb ((items.map read).flatMap w.leaves) ((items.map read).flatMap w.leaves ≠ []))
      (NestedBatch ctb ((items.map read).flatMap w.leaves ≠ []) w.depth ((items.map read).flatMap w.leaves)
        fun f => (items.map read).map (w.cell f)) := by
  have hwalk : Walks (ReadsElement shape.hasInnerOption expr item) projection shape access read items :=
    hw.walks.mono fun v h => h.1
  have hrun := nestedVecEmit_runs hw.nullable rfl hwalk (by rw [hw.elems]; exact hin)
  rw [hw.elems, hw.fits, hw.depth] at hrun
  exact Runs.mono hrun fun _ out hout => ⟨item, _, _, hout, hw.elems, hw.rows⟩

/-- A field's own shape follows the walk past its wrappers. -/
theorem leafWalk_word (hn : shape.Nullable) (ha : Accesses access read shape.layers.first.access.steps items)
    (ht : ∀ it ∈ items, HasWord P shape.word (read it)) :
    LeafWalk P (.word (.vec shape)) (pepLeafExpr shape) (chainFold shape.innerAccess.steps) none shape access read items where
  nullable := hn
  walks := walks_word ha ht fun v hv => by
    refine ⟨pepLeafExpr_reads hn hv, fun u hu => ?_⟩
    rcases HasWord.chain shape.innerAccess.steps hv with ⟨x, hx, hP, -⟩ | ⟨hnone, -⟩
    · rw [hx] at hu
      cases hu
      exact hP
    · rw [hnone] at hu
      cases hu
  rows f := by
    have hrows := rows_word f ht
      fun v hv => show (chainFold shape.innerAccess.steps v).elim .null f = _ by
        rcases HasWord.chain shape.innerAccess.steps hv with ⟨u, hu, -, -, hcell⟩ | ⟨hnone, -, -, hcell⟩
        · rw [hu]; exact (hcell f).symm
        · rw [hnone]; exact (hcell f).symm
    rw [hrows, List.map_map]
    rfl
  fits F := by
    show _ ↔ FitsWord i64Max F shape.word _
    rw [← rows_fits]
    refine fits_congr _ _ ?_
    rw [fitsWord_chain_nil, map_reduceOption]
  elems := by
    show _ = (items.map read).flatMap (leavesOf shape.word)
    rw [leaves_field, VecLayers.word_eq, ← leavesOf_chains, List.flatMap_assoc]
    exact List.flatMap_congr fun v _ => (leavesOf_append _ _ v).symm
  depth := rfl

end

end DfDerive
