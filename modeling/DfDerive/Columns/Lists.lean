/-
  DfDerive.Columns.Lists — columns below `Vec` layers.

  - `vecColumn_refines`: for any field type with a `Vec`, the column of a primitive leaf reads
    back as the recursive reference says, whichever path emits it.
  - `DerivedStruct.precount_scan_agree`: in every column of an accepted struct that has list
    layers, the counting pass and the scan count the same lists and leaves, so that no bitmap
    is written out of range and no array is built from buffers that do not fit together.
-/

import DfDerive.Columns.Alone

namespace DfDerive

open Lib

/-! ## The reference -/

/-- The values a field of a type with wrappers `ws` holds in the rows, leaves satisfying `P`. -/
def FieldRows (P : Value → Prop) (source : FieldSource) (ws : List RawWrapper) (rows : List Value) : Prop :=
  ∀ v ∈ rows, ∃ x, source.value? v = some x ∧ HasWord P ws x

def fieldValues (source : FieldSource) (rows : List Value) : List Value := rows.map fun v => (source.value? v).getD .none

/-- The rows as the emitted loops see them: owned, or behind references. -/
def ItemsOf (rows : List Value) (items : List Operand) : Prop := items = ownedItems rows ∨ items = borrowedItems rows

theorem ItemsOf.erase {rows : List Value} {items : List Operand} (h : ItemsOf rows items) :
    items.map Operand.erase = rows := by
  rcases h with rfl | rfl
  · exact List.map_map.trans (List.map_id rows)
  · exact erase_borrowed rows

theorem ItemsOf.rowItems {rows : List Value} {items : List Operand} (h : ItemsOf rows items) : RowItems items := by
  rcases h with rfl | rfl
  · intro it hit
    obtain ⟨v, -, rfl⟩ := List.mem_map.mp hit
    rfl
  · exact rowItems_borrowed rows

section

variable {P : Value → Prop} {source : FieldSource} {ws : List RawWrapper} {rows : List Value} {items : List Operand}

/-- What the field expression reads from an item. -/
abbrev fieldRead (source : FieldSource) (it : Operand) : Value := (source.value? it.erase).getD .none

theorem ItemsOf.read (h : ItemsOf rows items) : items.map (fieldRead source) = fieldValues source rows := by
  rw [fieldValues, ← h.erase, List.map_map]
  rfl

theorem ItemsOf.field (h : ItemsOf rows items) (ht : FieldRows P source ws rows) {it : Operand} (hit : it ∈ items) :
    source.value? it.erase = some (fieldRead source it) ∧ HasWord P ws (fieldRead source it) := by
  obtain ⟨x, hx, hw⟩ := ht it.erase (h.erase ▸ List.mem_map_of_mem hit)
  rw [fieldRead, hx]
  exact ⟨rfl, hw⟩

theorem ItemsOf.accesses (h : ItemsOf rows items) (ht : FieldRows P source ws rows) (steps : List AccessStep) :
    Accesses (fieldSourceAccess source) (fieldRead source) steps items :=
  accesses_place fun it hit => fieldSourceAccess_eq (h.rowItems it hit) (h.field ht hit).1

end

/-- Below a chain, an absent list is null and an empty one a list without elements. -/
theorem cellOf_absent_or_empty {P : Value → Prop} (f : Value → Cell) (access : AccessChain)
    (w : List RawWrapper) {v : Value} (h : HasWord P (access.word ++ .vec :: w) v) :
    (cellOf f (access.word ++ .vec :: w) v = .null ↔ chainFold access.steps v = none) ∧
      (cellOf f (access.word ++ .vec :: w) v = .list [] ↔ chainFold access.steps v = some (.vec [])) := by
  rw [hasWord_append] at h
  rw [cellOf_append, cellOf_chain _ h]
  rcases HasWord.chain access.steps h with ⟨u, hu, hw, -⟩ | ⟨hu, -⟩
  · obtain ⟨vs, rfl, -⟩ := hasWord_vec.mp hw
    rw [hu]
    simp [cellOf]
  · rw [hu]
    simp

/-! ## Primitive columns -/

/-- A column of a primitive leaf below `Vec`s: in the order of the rows, every value with its
    pointers erased, a stack of `Option`s folded to one null, and its leaves encoded; an absent
    list is not an empty one, and the fast path for bare `bool` emits what the general path does. -/
theorem vecColumn_refines (tr : Traits) (name : String) (leaf : PrimitiveLeaf) {ws : List RawWrapper} {shape : VecLayers}
    (hshape : normalizeWrappers ws = .vec shape) (source : FieldSource) {rows : List Value} {items : List Operand}
    (hitems : ItemsOf rows items) (ht : FieldRows (LeafTyped leaf) source ws rows) :
    Run.Spec (tryBuildVecEncoder tr name leaf shape (fieldSourceAccess source) items)
      (FitsWord i64Max (AllEncode tr leaf) ws (fieldValues source rows))
      (fun out => ∃ s, out = [s] ∧ s.name = name ∧ s.dtype = wrapListLayers leaf.dtype shape.depth ∧
        s.cells = (fieldValues source rows).map (cellOf (leafCell tr leaf) ws)) ∧
    tryBuildVecEncoder tr name leaf shape (fieldSourceAccess source) items =
      vecEncoder name (vecLeafPlan tr leaf).spec shape leaf.dtype (fieldSourceAccess source) items ∧
    (∀ l ∈ shape.layers.toList, ∀ (w : List RawWrapper) (v : Value), HasWord (fun _ => True) (l.access.word ++ .vec :: w) v →
      (cellOf (leafCell tr leaf) (l.access.word ++ .vec :: w) v = .null ↔ chainFold l.access.steps v = none) ∧
        (cellOf (leafCell tr leaf) (l.access.word ++ .vec :: w) v = .list [] ↔ chainFold l.access.steps v = some (.vec []))) := by
  have hn := normalizeWrappers_nullable hshape
  have hword := word_normalizeWrappers_vec hshape
  have ha := hitems.accesses ht shape.layers.first.access.steps
  have htyped : ∀ it ∈ items, HasWord (LeafTyped leaf) shape.word (fieldRead source it) := by
    intro it hit
    rw [hword]
    exact (hitems.field ht hit).2
  refine ⟨?_, tryBuildVecEncoder_eq tr name leaf hn ha htyped, fun l _ w v hv => cellOf_absent_or_empty _ l.access w hv⟩
  have hrun := tryBuildVecEncoder_runs tr name leaf hn ha htyped
  rw [hword, hitems.read] at hrun
  exact hrun

/-- `flags: Option<Vec<Vec<bool>>>` -/
theorem vecColumn_refines_flags : ∃ s, tryBuildVecEncoder brokenTraits "flags" .bool
      ⟨⟨⟨1, ⟨[.option]⟩⟩, [⟨0, .empty⟩]⟩, 0, .empty⟩ (fieldSourceAccess ⟨"flags", none, 0⟩)
      (ownedItems [.struct [("flags", .some (.vec [.vec [.scalar (.bool true)], .vec []]))], .struct [("flags", .none)]]) =
        .ok [s] ∧ s.cells = [.list [.list [.val (.bool true)], .list []], .null] := by
  have ht : FieldRows (LeafTyped .bool) ⟨"flags", none, 0⟩ [.option, .vec, .vec]
      [.struct [("flags", .some (.vec [.vec [.scalar (.bool true)], .vec []]))], .struct [("flags", .none)]] := by
    intro v hv
    rcases List.mem_cons.mp hv with rfl | hv
    · refine ⟨_, rfl, fun u hu => ?_⟩
      rcases List.mem_cons.mp hu with rfl | hu
      · exact fun x hx => ⟨true, List.mem_singleton.mp hx⟩
      · rw [List.mem_singleton.mp hu]
        exact nofun
    · rw [List.mem_singleton.mp hv]
      exact ⟨_, rfl, trivial⟩
  obtain ⟨s, hs, -⟩ := Run.ok_of_map (r := tryBuildVecEncoder brokenTraits "flags" .bool
    ⟨⟨⟨1, ⟨[.option]⟩⟩, [⟨0, .empty⟩]⟩, 0, .empty⟩ (fieldSourceAccess ⟨"flags", none, 0⟩)
    (ownedItems [.struct [("flags", .some (.vec [.vec [.scalar (.bool true)], .vec []]))], .struct [("flags", .none)]]))
    (f := List.length) (b := 1) rfl
  have hshape : normalizeWrappers [.option, .vec, .vec] = .vec ⟨⟨⟨1, ⟨[.option]⟩⟩, [⟨0, .empty⟩]⟩, 0, .empty⟩ := rfl
  obtain ⟨-, t, rfl, -, -, hcells⟩ :=
    (vecColumn_refines brokenTraits "flags" .bool hshape ⟨"flags", none, 0⟩ (Or.inl rfl) ht).1.of_eq_ok hs
  exact ⟨t, hs, hcells⟩

/-! ## Counting and scanning -/

section

variable {σ : Type} (vc : VecColumn) (items : List Operand)

/-- The counting pass of the column. -/
def VecColumn.precount : Run (Counts vc.shape.layers.toList) := ShapePrecount.build vc.projection vc.shape vc.access items

/-- The scan of the column, its leaves pushed to a storage of some kind. -/
def VecColumn.scan (push : σ → Operand → Run σ) (len : σ → Nat) (storage : σ) : Run (Bufs σ vc.shape.layers.toList) :=
  ShapeScan.build ⟨leafLoop vc.leafExpr push, len, vc.projection⟩ vc.shape vc.access items (shapeDecls vc.shape storage)

/-- The scan ends in an admitted error, or in buffers cut as counted, with `Q` true of the leaf storage. -/
def VecColumn.ScansAs (counts : Counts vc.shape.layers.toList) (push : σ → Operand → Run σ) (len : σ → Nat) (storage : σ)
    (Q : σ → Prop) : Prop :=
  (∃ f, vc.scan items push len storage = .error f ∧ f.FromData) ∨
    ∃ st, vc.scan items push len storage = .ok st ∧ Bufs.Agree len vc.shape.layers.toList st counts items.length ∧
      Q (Bufs.leaf _ st)

/-- The bitmaps of a leaf storage have a bit for every counted leaf, and nothing but them. -/
def BitmapsFull (spec : VecLeafSpec) (hasInnerOption : Bool) (total : Nat) (s : VecLeafBufs) : Prop :=
  leafOffsetsPostPush spec s = total ∧ (hasInnerOption = true → s.validity.length = total) ∧
    (spec = .bool → s.values.length = total ∧ s.leafIdx = total)

end

theorem VecAbs.bitmapsFull {spec : VecLeafSpec} {hasInnerOption : Bool} {total : Nat} {s : VecLeafBufs}
    {xs : List (Option Prim)} (h : VecAbs spec hasInnerOption total s xs) (hlen : xs.length = total) :
    BitmapsFull spec hasInnerOption total s := by
  refine ⟨h.length.trans hlen, fun hopt => ?_, fun hbool => ?_⟩
  · subst hopt
    rw [h.1.full hlen, List.length_map, hlen]
  · subst hbool
    obtain ⟨-, hvalues, hidx, -⟩ := h
    rw [hvalues.full hlen, List.length_map]
    exact ⟨hlen, hidx.trans hlen⟩

section

variable {vc : VecColumn} {v : Walk} {read : Operand → Value} {item : Value → Option Value} {items : List Operand}

/-- The walked rows are counted; the leaves are the total. -/
theorem LeafWalk.precount {P : Value → Prop}
    (hw : LeafWalk P v vc.leafExpr item vc.projection vc.shape vc.access read items) :
    vc.precount items = .ok (levels vc.shape.layers.toList (rowsOf vc.projection vc.shape read items)) ∧
      Counts.total _ (levels vc.shape.layers.toList (rowsOf vc.projection vc.shape read items)) =
        (leaves vc.shape.layers.toList (rowsOf vc.projection vc.shape read items)).length :=
  ⟨precount_eq hw.walks, total_levels vc.shape.layers.rest vc.shape.layers.first _ (hw.walks.shaped hw.nullable)⟩

/-- The passes of a primitive column. -/
theorem LeafWalk.primitive_scansAs (tr : Traits) {leaf : PrimitiveLeaf}
    (hw : LeafWalk (LeafTyped leaf) v vc.leafExpr item vc.projection vc.shape vc.access read items) :
    ∃ counts, vc.precount items = .ok counts ∧
      vc.ScansAs items counts (buildVecLeafPieces (vecLeafPlan tr leaf).spec vc.shape.hasInnerOption).push
        (leafOffsetsPostPush (vecLeafPlan tr leaf).spec)
        ((buildVecLeafPieces (vecLeafPlan tr leaf).spec vc.shape.hasInnerOption).storage (Counts.total _ counts))
        (BitmapsFull (vecLeafPlan tr leaf).spec vc.shape.hasInnerOption (Counts.total _ counts)) := by
  obtain ⟨hcounts, htotal⟩ := hw.precount
  refine ⟨_, hcounts, ?_⟩
  have hs := (vecLeafPlan_reads tr leaf).1
  have hreads : Walks (ReadsItem leaf vc.shape.hasInnerOption vc.leafExpr item) vc.projection vc.shape vc.access read items :=
    hw.walks.mono fun _ ⟨⟨o, ho, hr⟩, ht⟩ => ⟨o, ho, hr, ht⟩
  generalize hspec : (vecLeafPlan tr leaf).spec = spec at hs ⊢
  generalize hrows : rowsOf vc.projection vc.shape read items = rows at htotal ⊢
  have hscan := build_runs (s := ⟨leafLoop vc.leafExpr (buildVecLeafPieces spec vc.shape.hasInnerOption).push,
    leafOffsetsPostPush spec, vc.projection⟩) rfl (leafPush hs (Counts.total _ (levels vc.shape.layers.toList rows))) hw.nullable
    hreads (pieces_storage spec vc.shape.hasInnerOption _) (by intro u hu; cases hu) (by rw [hrows]; exact Nat.le_of_eq htotal.symm)
  rw [hrows] at hscan
  rcases hscan.safe with ⟨st, hst, hholds⟩ | herror
  · refine Or.inr ⟨st, hst, ?_, hholds.abs.bitmapsFull ?_⟩
    · have hlen : rows.length = items.length := by rw [← hrows, List.length_map]
      rw [← hlen]
      exact hholds.agree fun s as h => h.length.trans (List.length_map _)
    · rw [List.length_map]
      exact htotal.symm
  · exact Or.inl herror

/-- The passes of a nested column. -/
theorem LeafWalk.nested_scansAs {P : Value → Prop}
    (hw : LeafWalk P v vc.leafExpr item vc.projection vc.shape vc.access read items) :
    ∃ counts, vc.precount items = .ok counts ∧
      vc.ScansAs items counts (nestedPush vc.shape.hasInnerOption) (nestedOffsetsPostPush vc.shape) .new
        (fun s => (if vc.shape.hasInnerOption then s.positions.length else s.flat.length) = Counts.total _ counts) := by
  obtain ⟨hcounts, htotal⟩ := hw.precount
  refine ⟨_, hcounts, ?_⟩
  have hreads : Walks (ReadsElement vc.shape.hasInnerOption vc.leafExpr item) vc.projection vc.shape vc.access read items :=
    hw.walks.mono fun _ h => h.1
  generalize hrows : rowsOf vc.projection vc.shape read items = rows at htotal ⊢
  have hscan := build_runs (s := ⟨leafLoop vc.leafExpr (nestedPush vc.shape.hasInnerOption), nestedOffsetsPostPush vc.shape,
    vc.projection⟩) rfl (nestedLeafPush vc.leafExpr rfl) hw.nullable hreads (NestedAbs.new _) (PositionsFit.nil _) trivial
  rw [hrows] at hscan
  rcases hscan.safe with ⟨st, hst, hholds⟩ | herror
  · refine Or.inr ⟨st, hst, ?_, hholds.abs.length.trans ((List.length_map _).trans htotal.symm)⟩
    have hlen : rows.length = items.length := by rw [← hrows, List.length_map]
    rw [← hlen]
    exact hholds.agree (nestedLeafPush vc.leafExpr rfl).len_eq
  · exact Or.inl herror

end

/-- The counting pass and the scan of every column below `Vec` layers agree, whatever rows it
    is given: each layer's buffers and the leaf storage are cut as counted, the column's
    run ends in a column or in an `Err`, and an offset past `i64` is one. -/
theorem DerivedStruct.precount_scan_agree (s : DerivedStruct) (env : Env) :
    List.Forall₂ (fun c r => ∀ vc, c.vecColumn? = some vc → ∀ items, RowItems items →
      (∀ leaf, r.route = .primitive leaf → (∀ it ∈ items, r.walk.typed (LeafTyped leaf) it.erase) →
        (∃ counts, vc.precount items = .ok counts ∧
          vc.ScansAs items counts (buildVecLeafPieces (vecLeafPlan env.traits leaf).spec vc.shape.hasInnerOption).push
            (leafOffsetsPostPush (vecLeafPlan env.traits leaf).spec)
            ((buildVecLeafPieces (vecLeafPlan env.traits leaf).spec vc.shape.hasInnerOption).storage (Counts.total _ counts))
            (BitmapsFull (vecLeafPlan env.traits leaf).spec vc.shape.hasInnerOption (Counts.total _ counts))) ∧
        ∀ f, c.run env items = .error f → f.FromData) ∧
      (∀ nested P, r.route = .nested nested → (∀ it ∈ items, r.walk.typed P it.erase) →
        (∃ counts, vc.precount items = .ok counts ∧
          vc.ScansAs items counts (nestedPush vc.shape.hasInnerOption) (nestedOffsetsPostPush vc.shape) .new
            (fun s => (if vc.shape.hasInnerOption then s.positions.length else s.flat.length) = Counts.total _ counts)) ∧
        ((env.impl nested.ty).Answers P → ∀ f, c.run env items = .error f → f.Reported))) s.ir.columns s.refs ∧
    (∀ n, (n ≤ i64Max → listOffsetI64Expr n = .ok n) ∧ (i64Max < n → listOffsetI64Expr n = Run.derive (.listOffset n))) := by
  constructor
  · refine s.each_column fun c r hcr vc hvc items hrows => ⟨fun leaf hroute ht => ?_, fun nested P hroute ht => ?_⟩
    · obtain ⟨v, read, item, hw⟩ := hcr.follows.scanned vc items hvc hrows ht
      refine ⟨hw.primitive_scansAs env.traits, fun f hf => ?_⟩
      exact (hcr.follows.run_primitive env (hcr.route.trans hroute) hrows ht).of_eq_error hf
    · obtain ⟨v, read, item, hw⟩ := hcr.follows.scanned vc items hvc hrows ht
      refine ⟨hw.nested_scansAs, fun hanswers f hf => ?_⟩
      obtain ⟨used, -, hrun⟩ := hcr.follows.run_nested env (hcr.route.trans hroute) hanswers hrows ht
      exact hrun.of_eq_error hf
  · intro n
    exact ⟨fun h => if_pos h, fun h => if_neg (Nat.not_le.mpr h)⟩

end DfDerive
