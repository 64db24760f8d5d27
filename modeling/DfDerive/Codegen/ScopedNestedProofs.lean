/-
  DfDerive.Codegen.ScopedNestedProofs — the blocks of nested columns read the names they bind.

  What a nested type returned is spliced column by column under the borrowed name and dtype
  of the schema's loop (`consume_clean`), in each of the branches that
  `nestedMaterializeDispatch` chooses between. So the blocks of nested columns are clean, at
  every depth and below a projection (`buildNestedEncoder_clean`, `emitProjectedVecNested_clean`).
-/

import DfDerive.Codegen.ScopedBlocksProofs

namespace DfDerive.Scoped

open Lib Idents

/-! ## Columns of nested rows -/

/-- The names the loop over a schema binds. -/
def consumeTemps : List Ident :=
  [nestedColName, nestedColDtype, nestedPrefixedName, nestedInnerSeries, fieldNamedSeries, nestedInnerFull, nestedInnerCol,
    nestedInnerRech, nestedInnerChunk]

/-- The layers around a nested column are frozen. -/
def NestedWrapper.Frozen : NestedWrapper → Names Ident → Prop
  | .none, _ => True
  | .list shape layers arr, T =>
    ∃ ns, layers = .new ns ∧ ArrIds arr ns ∧ (∀ l, T (arr l) = .free) ∧ (∀ l < shape.depth, T (ns.part .offsetsBuf l) = .bound) ∧
      (∀ l, HasValidity shape l → T (ns.part .validityBm l) = .bound) ∧ T (helper .assembleHelper) = .bound

/-- Where the loop over a schema stands. -/
structure ConsumeScope (wrapper : NestedWrapper) (T : Names Ident) : Prop where
  columns : T columns = .bound
  validate : T (helper .validateNestedColumnDtype) = .bound
  free : ∀ i ∈ consumeTemps, T i = .free
  frozen : wrapper.Frozen T

/-- Inside that loop: the borrowed name and dtype are bound again. -/
structure ColumnScope (T U : Names Ident) : Prop where
  same : Same [.colName, .colDtype, .prefixedName] T U
  colName : U nestedColName = .rebound
  colDtype : U nestedColDtype = .rebound

section

variable {T U : Names Ident}

@[simp] theorem colName_clean : colName.Clean U ↔ U nestedColName = .rebound := by simp [colName]
@[simp] theorem colDtype_clean : colDtype.Clean U ↔ U nestedColDtype = .rebound := by simp [colDtype]
@[simp] theorem colName_exit : colName.exit U = U := rfl
@[simp] theorem colDtype_exit : colDtype.exit U = U := rfl

theorem wrapNestedColumn_closed (wrapper : NestedWrapper) {innerColExpr : TokenStream} (h : innerColExpr.Closed) :
    (wrapNestedColumn wrapper innerColExpr).Closed := by
  cases wrapper with
  | none => exact h
  | list shape layers arr => exact fun _ => rfl

theorem wrapNestedColumn_clean {wrapper : NestedWrapper} (h : ConsumeScope wrapper T) (hU : ColumnScope T U)
    {innerColExpr : TokenStream} (hclosed : innerColExpr.Closed) (hclean : innerColExpr.Clean U) :
    (wrapNestedColumn wrapper innerColExpr).Clean U := by
  cases wrapper with
  | none => exact hclean
  | list shape layers arr =>
    obtain ⟨ns, rfl, harr, harrFree, hoffsets, hvalidity, hhelper⟩ := h.frozen
    have hfree : ∀ i ∈ [nestedInnerCol, nestedInnerRech, nestedInnerChunk], U i = .free := by
      intro i hi
      simp only [List.mem_cons, List.not_mem_nil, or_false] at hi
      rcases hi with rfl | rfl | rfl <;> rw [hU.same _ (by simp), h.free _ (by simp [consumeTemps])]
    have hsame : Same [.innerCol, .innerRech, .innerChunk] U (Function.update (Function.update (Function.update U nestedInnerCol .bound)
        nestedInnerRech .bound) nestedInnerChunk .bound) :=
      (((Same.refl _ U).update (by simp) _).update (by simp) _).update (by simp) _
    have hall := hU.same.trans hsame
    have hlist : (shapeAssembleListStack (use [nestedInnerChunk]) (use [nestedInnerChunk]) (shapeLayerWrapsClone shape (.new ns))
        colDtype arr).Clean (Function.update (Function.update (Function.update U nestedInnerCol .bound) nestedInnerRech .bound)
          nestedInnerChunk .bound) := by
      refine shapeAssembleListStack_clean harr (Function.update_self ..) (Function.update_self ..) (by simp [listFamilies])
        (by simp [listFamilies]) (fun l => ?_) (wraps_ne_nil shape _).2 (fun l w hw V hV => ?_) ?_ fun V hV => ?_
      · rw [hall _ (by simp [harr.family]), harrFree l]
      · refine shapeLayerWrapsClone_ready (fun l hl => ?_) (fun l hl => ?_) l w hw hV
        · rw [hall _ (by simp), hoffsets l hl]
        · rw [hall _ (by simp), hvalidity l hl]
      · rw [hall _ (by simp), hhelper]
      · rw [colDtype_clean, hV _ (by simp [listFamilies]), hsame _ (by simp), hU.colDtype]
    simpa [wrapNestedColumn, hclosed U, hclean, hfree] using hlist

/-- The loop over a schema, around the series of one column. -/
theorem consume_clean {wrapper : NestedWrapper} (h : ConsumeScope wrapper T) {innerColExpr : TokenStream}
    (hclosed : innerColExpr.Closed) (hclean : ∀ U, ColumnScope T U → innerColExpr.Clean U) :
    (consumeNestedColumns (wrapNestedColumn wrapper innerColExpr)).Clean T := by
  have hfree := h.free
  simp only [consumeTemps, List.forall_mem_cons] at hfree
  obtain ⟨hname, hdtype, hprefixed, hseries, hnamed, -⟩ := hfree
  have hexpr := wrapNestedColumn_closed wrapper hclosed
  have hscope : ColumnScope T (Function.update (Function.update (Function.update (Function.update (Function.update T nestedColName
      .bound) nestedColDtype .bound) nestedColName .rebound) nestedColDtype .rebound) nestedPrefixedName .bound) := by
    refine ⟨?_, by simp, by simp⟩
    exact ((((((Same.refl _ T).update (by simp) _).update (by simp) _).update (by simp) _).update (by simp) _)).update (by simp) _
  have hvalue := wrapNestedColumn_clean h hscope hclosed (hclean _ hscope)
  generalize wrapNestedColumn wrapper innerColExpr = seriesExpr at hexpr hvalue
  simp [consumeNestedColumns, composeNestedName, hname, hdtype, hprefixed, hseries, hnamed, hexpr _, hvalue, h.columns]

end

/-! ## Branches -/

/-- Where the nested rows are collected and what is made of them starts. -/
structure MaterializeScope (idx : Nat) (T : Names Ident) : Prop where
  columns : T columns = .bound
  frame : T (helper .validateNestedFrame) = .bound
  validate : T (helper .validateNestedColumnDtype) = .bound
  flat : T (nestedFlat idx) = .bound
  df : T (nestedDf idx) = .free
  take : T (nestedTake idx) = .free
  free : ∀ i ∈ consumeTemps, T i = .free

/-- The layers are frozen by `freeze`, wherever the batch or its gather is at hand already. -/
structure Freezes (wrapper : NestedWrapper) (freeze : TokenStream) (kind : LayerKind) (T : Names Ident) : Prop where
  clean : ∀ V, Same [.nestedDf, .nestedTake] T V → freeze.Clean V
  frozen : ∀ V, Same [.nestedDf, .nestedTake] T V → wrapper.Frozen (freeze.exit V)
  same : ∀ V, Same [.nestedDf, .nestedTake] T V → Same [.layer kind .offsetsBuf] V (freeze.exit V)

section

variable {idx : Nat} {T : Names Ident} {wrapper : NestedWrapper} {freeze : TokenStream} {kind : LayerKind}

theorem MaterializeScope.consumeScope (h : MaterializeScope idx T) (hf : Freezes wrapper freeze kind T) {V : Names Ident}
    (hV : Same [.nestedDf, .nestedTake] T V) : ConsumeScope wrapper (freeze.exit V) := by
  have hall := hV.trans (hf.same V hV)
  refine ⟨?_, ?_, fun i hi => ?_, hf.frozen V hV⟩
  · rw [hall _ (by simp), h.columns]
  · rw [hall _ (by simp), h.validate]
  · have hfamily : i.family ∈ consumeTemps.map Ident.family := List.mem_map_of_mem hi
    rw [hall.apart hfamily (by simp [consumeTemps]), h.free i hi]

theorem innerCol_closed (df : Ident) (result : TokenStream) : (innerCol df result).Closed := fun _ => rfl

/-- The checked column of a frame. -/
theorem innerCol_clean {V U : Names Ident} (h : ConsumeScope wrapper V) (hU : ColumnScope V U)
    (hdf : V (nestedDf idx) = .bound)
    {result : TokenStream} (hresult : result.Clean (Function.update U nestedInnerFull .bound)) :
    (innerCol (nestedDf idx) result).Clean U := by
  have hfree : U nestedInnerFull = .free := by rw [hU.same _ (by simp), h.free _ (by simp [consumeTemps])]
  have hdfU : U (nestedDf idx) = .bound := by rw [hU.same _ (by simp), hdf]
  have hvalidate : U (helper .validateNestedColumnDtype) = .bound := by rw [hU.same _ (by simp), h.validate]
  simp [innerCol, hU.colName, hU.colDtype, hdfU, hfree, hvalidate, hresult]

/-- No element at all: empty columns. -/
theorem consumeEmpty_clean (h : MaterializeScope idx T) (hf : Freezes wrapper freeze kind T) :
    (freeze ++ consumeNestedColumns (wrapNestedColumn wrapper buildInnerColEmpty)).Clean T := by
  have hV := Same.refl [.nestedDf, .nestedTake] T
  refine Code.clean_append.mpr ⟨hf.clean T hV, consume_clean (h.consumeScope hf hV) (fun _ => rfl) fun U hU => ?_⟩
  simp [buildInnerColEmpty, hU.colDtype]

/-- No value present: columns of nulls. -/
theorem consumeAllAbsent_clean (h : MaterializeScope idx T) (hf : Freezes wrapper freeze kind T) (len : TokenStream)
    (hclosed : len.Closed)
    (hlen : ∀ U, Same [.layer kind .offsetsBuf, .colName, .colDtype, .prefixedName] T U → len.Clean U) :
    (freeze ++ consumeNestedColumns (wrapNestedColumn wrapper (buildInnerColAllAbsent len))).Clean T := by
  have hV := Same.refl [.nestedDf, .nestedTake] T
  refine Code.clean_append.mpr ⟨hf.clean T hV, consume_clean (h.consumeScope hf hV) (fun U => ?_) fun U hU => ?_⟩
  · simp [buildInnerColAllAbsent, hclosed U]
  · have := hlen U ((hf.same T (.refl _ T)).trans hU.same)
    simp [buildInnerColAllAbsent, hU.colDtype, this]

theorem nestedDfDecl_clean (h : MaterializeScope idx T) : (nestedDfDecl (nestedDf idx) (nestedFlat idx)).Clean T := by
  simp [nestedDfDecl, h.flat, h.df, h.frame]

/-- Every value present: the columns of the frame. -/
theorem consumeDirect_clean (h : MaterializeScope idx T) (hf : Freezes wrapper freeze kind T) :
    (nestedDfDecl (nestedDf idx) (nestedFlat idx) ++ freeze ++
      consumeNestedColumns (wrapNestedColumn wrapper (buildInnerColDirect (nestedDf idx)))).Clean T := by
  have hexit : (nestedDfDecl (nestedDf idx) (nestedFlat idx)).exit T = Function.update T (nestedDf idx) .bound := by
    simp [nestedDfDecl]
  have hV : Same [.nestedDf, .nestedTake] T (Function.update T (nestedDf idx) .bound) := (Same.refl _ T).update (by simp) _
  have hscope := h.consumeScope hf hV
  have hdf : freeze.exit (Function.update T (nestedDf idx) .bound) (nestedDf idx) = .bound := by
    rw [hf.same _ hV _ (by simp), Function.update_self]
  simp only [Code.clean_append, Code.exit_append, hexit]
  refine ⟨⟨nestedDfDecl_clean h, hf.clean _ hV⟩, consume_clean hscope (innerCol_closed _ _) fun U hU => ?_⟩
  exact innerCol_clean hscope hU hdf (by simp)

/-- Some values absent: the columns of the frame, gathered by the positions. -/
theorem consumeTake_clean (h : MaterializeScope idx T) (hf : Freezes wrapper freeze kind T)
    (hpositions : T (nestedPositions idx) = .bound) :
    (nestedDfDecl (nestedDf idx) (nestedFlat idx) ++ nestedTakeDecl (nestedTake idx) (nestedPositions idx) ++ freeze ++
      consumeNestedColumns (wrapNestedColumn wrapper (buildInnerColTake (nestedDf idx) (nestedTake idx)))).Clean T := by
  have hexit : (nestedDfDecl (nestedDf idx) (nestedFlat idx) ++ nestedTakeDecl (nestedTake idx) (nestedPositions idx)).exit T =
      Function.update (Function.update T (nestedDf idx) .bound) (nestedTake idx) .bound := by
    simp [nestedDfDecl, nestedTakeDecl]
  have hdecls : (nestedDfDecl (nestedDf idx) (nestedFlat idx) ++ nestedTakeDecl (nestedTake idx) (nestedPositions idx)).Clean T := by
    simp [nestedDfDecl, nestedTakeDecl, h.flat, h.df, h.frame, h.take, hpositions]
  have hV : Same [.nestedDf, .nestedTake] T (Function.update (Function.update T (nestedDf idx) .bound) (nestedTake idx) .bound) :=
    ((Same.refl _ T).update (by simp) _).update (by simp) _
  have hscope := h.consumeScope hf hV
  refine Code.clean_append.mpr ⟨Code.clean_append.mpr ⟨hdecls, ?_⟩, ?_⟩
  · rw [hexit]
    exact hf.clean _ hV
  · rw [Code.exit_append, hexit]
    refine consume_clean hscope (innerCol_closed _ _) fun U hU => innerCol_clean hscope hU ?_ ?_
    · rw [hf.same _ hV _ (by simp)]
      simp
    have htake : U (nestedTake idx) = .bound := by
      rw [hU.same _ (by simp), hf.same _ hV _ (by simp), Function.update_self]
    simp [htake]

theorem freezes_none (T : Names Ident) (kind : LayerKind) : Freezes .none .done kind T :=
  ⟨fun _ _ => trivial, fun _ _ => trivial, fun V _ => .refl _ V⟩

theorem dispatch_leafOptional_clean {b : NestedMaterializeBranches} {flat : Ident} {len : TokenStream}
    (hflat : T flat = .bound) (hclosed : len.Closed) (hlen : len.Clean T) (habsent : b.consumeAllAbsent.Clean T)
    (hdirect : (b.dfDecl ++ b.consumeDirect).Clean T) (htake : (b.dfDecl ++ b.takeDecl ++ b.consumeTake).Clean T) :
    (nestedMaterializeDispatch .leafOptional flat len b).Clean T := by
  simp only [nestedMaterializeDispatch, Code.clean_append, Code.exit_append, clean_use, exit_use, exit_block, clean_block,
    List.forall_mem_singleton, hclosed T, hlen, hflat, habsent, true_and] at hdirect htake ⊢
  exact ⟨hdirect, htake⟩

/-- The offsets are frozen in the branch that runs, the bitmaps ahead of all branches. -/
theorem dispatch_vec_clean {b : NestedMaterializeBranches} {flat : Ident} {len : TokenStream} {S₀ : Names Ident}
    (hfreeze : b.validityFreeze.Clean S₀) (hexit : b.validityFreeze.exit S₀ = T) (hflat : T flat = .bound)
    (hclosed : len.Closed) (hlen : len.Clean T) (hempty : (b.offsetsFreeze ++ b.consumeEmpty).Clean T)
    (habsent : (b.offsetsFreeze ++ b.consumeAllAbsent).Clean T)
    (hdirect : (b.dfDecl ++ b.offsetsFreeze ++ b.consumeDirect).Clean T) {positions : Bool}
    (htake : positions = true → (b.dfDecl ++ b.takeDecl ++ b.offsetsFreeze ++ b.consumeTake).Clean T) :
    (nestedMaterializeDispatch (.vec positions) flat len b).Clean S₀ := by
  cases positions with
  | false =>
    simp only [nestedMaterializeDispatch, Code.clean_append, Code.exit_append, clean_use, exit_use, exit_block, clean_block,
      List.forall_mem_singleton, hexit, hfreeze, hflat, true_and] at hempty hdirect ⊢
    exact ⟨hempty, hdirect⟩
  | true =>
    replace htake := htake rfl
    simp only [nestedMaterializeDispatch, Code.clean_append, Code.exit_append, clean_use, exit_use, exit_block, clean_block,
      List.forall_mem_singleton, hexit, hfreeze, hflat, hclosed T, hlen, true_and, and_true] at hempty habsent hdirect htake ⊢
    exact ⟨⟨⟨hempty, habsent⟩, hdirect⟩, htake⟩

/-- The columns of nested rows without `Vec` layers. -/
theorem materializeLeaf_clean (h : MaterializeScope idx T) (hitems : T (plain .items) = .bound) {positions : Option Ident}
    (hpositions : positions = none ∨ positions = some (nestedPositions idx) ∧ T (nestedPositions idx) = .bound) :
    (materializeNestedColumns ⟨idx, nestedFlat idx, positions, items, .none⟩).Clean T := by
  have hf := freezes_none T .nested
  have hdirect := consumeDirect_clean h hf
  rw [Code.append_done] at hdirect
  rcases hpositions with rfl | ⟨rfl, hbound⟩
  · exact hdirect
  · have habsent := consumeAllAbsent_clean h hf items (fun S => by simp [items]) fun U hU => by
      have : U (plain .items) = .bound := by rw [hU _ (by simp), hitems]
      simp [items, this]
    have htake := consumeTake_clean h hf hbound
    rw [Code.append_done] at htake
    exact dispatch_leafOptional_clean h.flat (fun S => by simp [items]) (by simp [items, hitems]) habsent hdirect htake

end

/-! ## Blocks -/

/-- The helpers of nested columns are defined around the methods. -/
structure NestedHelpers (S : Names Ident) : Prop where
  frame : S (helper .validateNestedFrame) = .bound
  validate : S (helper .validateNestedColumnDtype) = .bound

section

variable {e : ShapeEmitter} {ns : LayerNamespace} {idx : Nat} {own : List Ident} {S T : Names Ident} {arr : Nat → Ident}

/-- What nested rows are made into starts where they are collected, or past the bitmaps. -/
theorem materializeScope (ha : Ambient idx S) (hh : NestedHelpers S) {fs : List Family} (hT : Same fs S T)
    (hfs : ∀ f ∈ [Family.columns, .helper .validateNestedFrame, .helper .validateNestedColumnDtype, .nestedDf, .nestedTake] ++
      consumeTemps.map Ident.family, f ∉ fs) (hflat : T (nestedFlat idx) = .bound) : MaterializeScope idx T := by
  have hsame : ∀ i : Ident, i.family ∈ [Family.columns, .helper .validateNestedFrame, .helper .validateNestedColumnDtype,
      .nestedDf, .nestedTake] ++ consumeTemps.map Ident.family → T i = S i := fun i hi => hT.apart hi hfs
  refine ⟨?_, ?_, ?_, hflat, ?_, ?_, fun i hi => ?_⟩
  · rw [hsame _ (by simp), ha.columns]
  · rw [hsame _ (by simp), hh.frame]
  · rw [hsame _ (by simp), hh.validate]
  · rw [hsame _ (by simp), ha.free (nestedDf idx) trivial]
  · rw [hsame _ (by simp), ha.free (nestedTake idx) trivial]
  · rw [hsame i (List.mem_append_right _ (List.mem_map_of_mem hi))]
    have hblock : ∀ j ∈ consumeTemps, InBlock idx j := by simp [consumeTemps, InBlock]
    exact ha.free i (hblock i hi)

/-- The offsets of every layer, frozen in the branch that runs. -/
theorem freezes_list {shape : VecLayers} (harr : ArrIds arr ns) (harrFree : ∀ l, T (arr l) = .free)
    (hhelper : T (helper .assembleHelper) = .bound) (hoffsets : ∀ l < shape.depth, T (ns.part .offsets l) = .bound)
    (hbuf : ∀ l, T (ns.part .offsetsBuf l) = .free) (hbm : ∀ l, HasValidity shape l → T (ns.part .validityBm l) = .bound) :
    Freezes (.list shape (.new ns) arr) (shapeFreezeOffsetsBuffers shape (.new ns)) ns.kind T := by
  have hfreeze : ∀ V, Same [.nestedDf, .nestedTake] T V → (shapeFreezeOffsetsBuffers shape (.new ns)).Clean V ∧
      Code.Declared (ns.part .offsetsBuf) (fun _ => True) shape.depth V ((shapeFreezeOffsetsBuffers shape (.new ns)).exit V) := by
    intro V hV
    refine shapeFreezeOffsetsBuffers_clean shape ns (fun l => ?_) fun l hl => ?_
    · rw [hV _ (by simp), hbuf]
    · rw [hV _ (by simp), hoffsets l hl]
  have hsame : ∀ V, Same [.nestedDf, .nestedTake] T V →
      Same [.layer ns.kind .offsetsBuf] V ((shapeFreezeOffsetsBuffers shape (.new ns)).exit V) :=
    fun V hV => .ofDeclared (hfreeze V hV).2 fun l => by simp
  refine ⟨fun V hV => (hfreeze V hV).1, fun V hV => ⟨ns, rfl, harr, fun l => ?_, fun l hl => ?_, fun l hl => ?_, ?_⟩, hsame⟩
  · rw [hsame V hV _ (by simp [harr.family]), hV _ (by simp [harr.family]), harrFree]
  · exact (hfreeze V hV).2.bound l hl trivial
  · rw [hsame V hV _ (by simp), hV _ (by simp), hbm l hl]
  · rw [hsame V hV _ (by simp), hV _ (by simp), hhelper]

theorem materialize_list (idx : Nat) (flat : Ident) (positions : Option Ident) (len : TokenStream) (shape : VecLayers)
    (layers : Nat → LayerIdents) (arr : Nat → Ident) :
    materializeNestedColumns ⟨idx, flat, positions, len, .list shape layers arr⟩ =
      nestedMaterializeDispatch (.vec positions.isSome) flat len
        { validityFreeze := shapeFreezeValidityBitmaps shape layers
          offsetsFreeze := shapeFreezeOffsetsBuffers shape layers
          dfDecl := nestedDfDecl (nestedDf idx) flat
          takeDecl := positions.elim .done (nestedTakeDecl (nestedTake idx))
          consumeDirect := consumeNestedColumns (wrapNestedColumn (.list shape layers arr) (buildInnerColDirect (nestedDf idx)))
          consumeTake := consumeNestedColumns
            (wrapNestedColumn (.list shape layers arr) (buildInnerColTake (nestedDf idx) (nestedTake idx)))
          consumeEmpty := consumeNestedColumns (wrapNestedColumn (.list shape layers arr) buildInnerColEmpty)
          consumeAllAbsent := consumeNestedColumns (wrapNestedColumn (.list shape layers arr) (buildInnerColAllAbsent len)) } :=
  rfl

/-- The columns of nested rows below `Vec` layers. -/
theorem materializeList_clean (ha : Ambient idx S) (hh : NestedHelpers S) (hhelper : S (helper .assembleHelper) = .bound)
    (htotal : e.totalCounter = nestedTotal idx) (harr : ArrIds arr ns) (h : Collected e ns own S T)
    (hlayers : e.layers = .new ns)
    (hflat : nestedFlat idx ∈ own) (hpositions : e.shape.hasInnerOption = true → nestedPositions idx ∈ own) :
    (materializeNestedColumns ⟨idx, nestedFlat idx, if e.shape.hasInnerOption then some (nestedPositions idx) else none,
      use [nestedTotal idx], .list e.shape e.layers arr⟩).Clean T := by
  obtain ⟨hvalidity, hdeclared⟩ := shapeFreezeValidityBitmaps_clean e.shape ns (T := T) (fun l => by
    rw [h.same _ (by simp [collectFamilies, storageFamilies]), ha.free (ns.part .validityBm l) trivial]) h.validity
  have hsame : Same [.layer ns.kind .validityBm] T ((shapeFreezeValidityBitmaps e.shape (.new ns)).exit T) :=
    .ofDeclared hdeclared fun l => by simp
  have hall := h.same.trans hsame
  have hscope : MaterializeScope idx ((shapeFreezeValidityBitmaps e.shape (.new ns)).exit T) := by
    refine materializeScope ha hh hall (by simp [collectFamilies, storageFamilies, consumeTemps]) ?_
    rw [hsame _ (by simp), h.own _ hflat]
  have hf : Freezes (.list e.shape (.new ns) arr) (shapeFreezeOffsetsBuffers e.shape (.new ns)) ns.kind
      ((shapeFreezeValidityBitmaps e.shape (.new ns)).exit T) := by
    refine freezes_list harr (fun l => ?_) ?_ (fun l hl => ?_) (fun l => ?_) fun l hl => ?_
    · rw [hall _ (by simp [harr.family, collectFamilies, storageFamilies]), harr.free ha]
    · rw [hall _ (by simp [collectFamilies, storageFamilies]), hhelper]
    · rw [hsame _ (by simp), h.offsets l hl]
    · rw [hall _ (by simp [collectFamilies, storageFamilies]), ha.free (ns.part .offsetsBuf l) trivial]
    · obtain ⟨spec, hspec, -⟩ := id hl
      exact hdeclared.bound l (layer_lt_depth hspec) hl
  have htotalBound : ∀ U, Same [.layer ns.kind .offsetsBuf, .colName, .colDtype, .prefixedName]
      ((shapeFreezeValidityBitmaps e.shape (.new ns)).exit T) U → U (nestedTotal idx) = .bound := fun U hU => by
    rw [hU _ (by simp), hsame _ (by simp), ← htotal, h.total]
  have hlen : ∀ U : Names Ident, U (nestedTotal idx) = .bound → (use [nestedTotal idx]).Clean U := fun U hU => by simp [hU]
  have hempty := consumeEmpty_clean hscope hf
  have habsent := consumeAllAbsent_clean hscope hf (use [nestedTotal idx]) (fun U => by simp) fun U hU =>
    hlen U (htotalBound U hU)
  have hdirect := consumeDirect_clean hscope hf
  have hnow := hlen _ (htotalBound _ (.refl _ _))
  rw [hlayers, materialize_list]
  refine dispatch_vec_clean hvalidity rfl hscope.flat (fun U => by simp) hnow hempty habsent hdirect fun hsome => ?_
  have hoption : e.shape.hasInnerOption = true := by simpa using hsome
  rw [hoption, if_pos rfl]
  exact consumeTake_clean hscope hf (by rw [hsame _ (by simp), h.own _ (hpositions hoption)])

/-- What nested rows are collected under: the rows, and their positions where some may be absent. -/
def nestedOwn (idx : Nat) (hasInnerOption : Bool) : List Ident :=
  [nestedFlat idx] ++ if hasInnerOption then [nestedPositions idx] else []

theorem nestedOwn_storage (idx : Nat) (hasInnerOption : Bool) : Storage idx (nestedOwn idx hasInnerOption) := by
  intro i hi
  cases hasInnerOption <;> simp only [nestedOwn, List.mem_append, List.mem_singleton, if_true, Bool.false_eq_true, if_false,
    List.not_mem_nil, or_false] at hi
  · subst hi
    exact ⟨by simp [storageFamilies], trivial⟩
  · rcases hi with rfl | rfl <;> exact ⟨by simp [storageFamilies], trivial⟩

/-- The block of nested rows below `Vec` layers, whatever walks its elements. -/
theorem nestedVecBlock_clean (he : e.Of ns) (htotal : e.totalCounter = nestedTotal idx) (ha : Ambient idx S)
    (hh : NestedHelpers S) (hhelper : S (helper .assembleHelper) = .bound) (hagree : Agrees e.shape) (harr : ArrIds arr ns)
    {leafBody : TokenStream → TokenStream} (hclosed : ∀ vecBind : TokenStream, vecBind.Closed → (leafBody vecBind).Closed)
    (hleaf : ∀ (vecBind : TokenStream) (U : Names Ident), vecBind.Closed → vecBind.Clean U →
      LeafScope (nestedOwn idx e.shape.hasInnerOption) U → (leafBody vecBind).Clean U) :
    (nestedVecBlock e idx leafBody arr).Clean S := by
  have hpositions : e.shape.hasInnerOption = true → nestedPositions idx ∈ nestedOwn idx e.shape.hasInnerOption := by
    intro h
    simp [nestedOwn, h]
  have hflat : nestedFlat idx ∈ nestedOwn idx e.shape.hasInnerOption := by simp [nestedOwn]
  have hdeclares : (letIn (nestedFlat idx) (use [nestedTotal idx]) ++
      positionsDecl e.shape.hasInnerOption (nestedPositions idx) (use [nestedTotal idx])).Declares
        (nestedOwn idx e.shape.hasInnerOption) := by
    refine (letIn_declares _ fun U => by simp).append ?_
    cases e.shape.hasInnerOption with
    | false => exact Code.Closed.declares fun _ => rfl
    | true => exact letIn_declares _ fun U => by simp
  have hstorage : ∀ T : Names Ident, T e.totalCounter = .bound → T bitmapBuilder = .free →
      (∀ i ∈ nestedOwn idx e.shape.hasInnerOption, T i = .free) →
        (letIn (nestedFlat idx) (use [nestedTotal idx]) ++
          positionsDecl e.shape.hasInnerOption (nestedPositions idx) (use [nestedTotal idx])).Clean T := by
    intro T hbound _ hfree
    rw [htotal] at hbound
    cases hoption : e.shape.hasInnerOption with
    | false => simp [positionsDecl, hbound, hfree _ hflat]
    | true => simp [positionsDecl, hbound, hfree _ hflat, hfree _ (hpositions hoption)]
  obtain ⟨hdecls, hcollected⟩ := collect_clean he ha (nestedOwn_storage idx _) hdeclares hstorage
  have hpost : ∃ i ∈ nestedOwn idx e.shape.hasInnerOption,
      nestedOffsetsPostPush e.shape (nestedFlat idx) (nestedPositions idx) = use [i] := by
    cases hoption : e.shape.hasInnerOption with
    | false => exact ⟨nestedFlat idx, by simp [nestedOwn], by simp [nestedOffsetsPostPush, hoption]⟩
    | true => exact ⟨nestedPositions idx, by simp [nestedOwn], by simp [nestedOffsetsPostPush, hoption]⟩
  obtain ⟨i, hi, hpost⟩ := hpost
  have hscan := scan_clean he ha (nestedOwn_storage idx _) hcollected hagree hclosed hleaf hi
  unfold nestedVecBlock
  dsimp only
  rw [clean_block, hpost, Code.append_assoc e.precount]
  refine Code.clean_append.mpr ⟨Code.clean_append.mpr ⟨hdecls, hscan⟩, ?_⟩
  rw [Code.exit_append, scan_closed]
  exact materializeList_clean ha hh hhelper htotal harr hcollected he.layers hflat hpositions

/-- The flags a nested block goes by are those of the chains. -/
structure NestedAgrees (shape : VecLayers) : Prop where
  layers : Agrees shape
  inner : .option ∈ shape.innerAccess.steps → shape.hasInnerOption = true

theorem nestedPositions_mem {shape : VecLayers} (h : shape.hasInnerOption = true) :
    nestedPositions idx ∈ nestedOwn idx shape.hasInnerOption := by
  rw [h]
  simp [nestedOwn]

theorem emitProjectedVecNested_clean (ha : Ambient idx S) (hh : NestedHelpers S)
    (hhelper : S (helper .assembleHelper) = .bound)
    {shape : VecLayers} (hagree : Agrees shape) (projection : LayerProjection) :
    (emitProjectedVecNested idx shape projection).Clean S := by
  unfold emitProjectedVecNested
  refine nestedVecBlock_clean (tuple_of rowAccess_row (by simp)) rfl ha hh hhelper hagree (tupleArr_ids idx)
    (fun _ => projectedScanLeafBody_closed shape projection _) fun vecBind U hvec hclean hU => ?_
  have hown := nestedOwn_storage idx shape.hasInnerOption
  exact projectedScanLeafBody_clean shape projection hU hown hvec hclean fun V hV =>
    projectedNestedPush_clean shape hown (by simp [nestedOwn]) nestedPositions_mem hV

theorem ctbDepth0MatchExpr_wraps (access : TokenStream) (chain : AccessChain) (optionLayers : Nat) :
    Wraps access (ctbDepth0MatchExpr access chain optionLayers) := by
  unfold ctbDepth0MatchExpr
  split
  · exact .refl access
  · split
    · exact wraps_collapse access optionLayers
    · exact wraps_accessChainToRef access chain

theorem ctbDepth0RefExpr_wraps (access : TokenStream) (chain : AccessChain) :
    Wraps access (ctbDepth0RefExpr access chain) := by
  unfold ctbDepth0RefExpr
  split
  · exact .refl access
  · exact wraps_accessChainToRef access chain

theorem ctbLeafScanDepth0_closed (access : TokenStream) (flat positions : Ident) (optionLayers : Nat)
    (chain : AccessChain) :
    (ctbLeafScanDepth0 access flat positions optionLayers chain).Closed := by
  intro T
  unfold ctbLeafScanDepth0
  split <;> simp [items]

theorem ctbLeafScanDepth0_clean {access : TokenStream} (haccess : RowAccess access) (optionLayers : Nat)
    (chain : AccessChain) (hitems : T (plain .items) = .bound) (hflat : T (nestedFlat idx) = .bound)
    (hpositions : optionLayers ≠ 0 → T (nestedPositions idx) = .bound)
    (hfree : ∀ i ∈ [populatorIter, collapseOptionParam, tupleProjParam, leafValue], T i = .free) :
    (ctbLeafScanDepth0 access (nestedFlat idx) (nestedPositions idx) optionLayers chain).Clean T := by
  have hvalue : Function.update T populatorIter .bound leafValue = .free := by
    rw [Function.update_of_ne (by simp), hfree _ (by simp)]
  have hparam : Function.update T populatorIter .bound collapseOptionParam = .free := by
    rw [Function.update_of_ne (by simp), hfree _ (by simp)]
  have hrow : access.Clean (Function.update T populatorIter .bound) := by
    refine haccess.clean _ (Function.update_self ..) hparam ?_
    rw [Function.update_of_ne (by simp), hfree _ (by simp)]
  obtain ⟨hmatch, hmatchClean⟩ := ctbDepth0MatchExpr_wraps access chain optionLayers haccess.closed
  obtain ⟨-, hrefClean⟩ := ctbDepth0RefExpr_wraps access chain haccess.closed
  have hflatRow : Function.update T populatorIter .bound (nestedFlat idx) = .bound := by
    rw [Function.update_of_ne (by simp), hflat]
  unfold ctbLeafScanDepth0
  split
  · rw [clean_forIn]
    refine ⟨by simp [items, hitems], hfree _ (by simp), ?_⟩
    have hiter : items.exit T = T := by simp [items]
    rw [hiter, Code.clean_append, exit_use, clean_use, List.forall_mem_singleton]
    exact ⟨hflatRow, hrefClean _ hparam hrow⟩
  · rename_i hne
    rw [clean_forIn]
    refine ⟨by simp [items, hitems], hfree _ (by simp), ?_⟩
    have hiter : items.exit T = T := by simp [items]
    rw [hiter]
    refine ctbMatch_clean hmatch (hmatchClean _ hparam hrow) hvalue hflatRow ?_
    rw [Function.update_of_ne (by simp), hpositions hne]

theorem buildNestedEncoder_clean (ha : Ambient idx S) (hh : NestedHelpers S) {wrapper : WrapperShape}
    (hhelper : 0 < wrapper.vecDepth → S (helper .assembleHelper) = .bound)
    (hagree : ∀ shape, wrapper = .vec shape → NestedAgrees shape) {access : TokenStream} (haccess : RowAccess access) :
    (buildNestedEncoder wrapper access idx).Clean S := by
  have hflat : S (nestedFlat idx) = .free := ha.free _ trivial
  have hpositions : S (nestedPositions idx) = .free := ha.free _ trivial
  have hfree : ∀ T, Same [.nestedFlat, .nestedPositions] S T →
      ∀ i ∈ [populatorIter, collapseOptionParam, tupleProjParam, leafValue], T i = .free := by
    intro T hT i hi
    have hfamily : i.family ∈ [Family.populatorIter, .collapseOptionParam, .tupleProjParam, .leafValue] := List.mem_map_of_mem hi
    have hblock : ∀ j ∈ [populatorIter, collapseOptionParam, tupleProjParam, leafValue], InBlock idx j := by simp [InBlock]
    rw [hT.apart hfamily (by simp), ha.free i (hblock i hi)]
  have hdecl : (letIn (nestedFlat idx) items).Clean S ∧ (letIn (nestedFlat idx) items).exit S =
      Function.update S (nestedFlat idx) .bound := by simp [items, ha.items, hflat]
  unfold buildNestedEncoder
  dsimp only
  split
  · have hsame : Same [.nestedFlat] S (Function.update S (nestedFlat idx) .bound) := (Same.refl _ S).update (by simp) _
    have hitems : Function.update S (nestedFlat idx) .bound (plain .items) = .bound := by rw [hsame _ (by simp), ha.items]
    have hscan := ctbLeafScanDepth0_clean haccess 0 .empty hitems (Function.update_self ..) (fun h => absurd rfl h)
      (hfree _ (hsame.mono (by simp)))
    have hscope := materializeScope ha hh hsame (by simp [consumeTemps]) (Function.update_self ..)
    rw [clean_block]
    refine Code.clean_append.mpr ⟨Code.clean_append.mpr ⟨hdecl.1, by rwa [hdecl.2]⟩, ?_⟩
    rw [Code.exit_append, ctbLeafScanDepth0_closed, hdecl.2]
    exact materializeLeaf_clean hscope hitems (Or.inl rfl)
  · rename_i optionLayers chain
    have hsame : Same [.nestedFlat, .nestedPositions] S
        (Function.update (Function.update S (nestedFlat idx) .bound) (nestedPositions idx) .bound) :=
      ((Same.refl _ S).update (by simp) _).update (by simp) _
    have hexit : (letIn (nestedFlat idx) items ++ letIn (nestedPositions idx) items).exit S =
        Function.update (Function.update S (nestedFlat idx) .bound) (nestedPositions idx) .bound := by simp [items]
    have hdecls : (letIn (nestedFlat idx) items ++ letIn (nestedPositions idx) items).Clean S := by
      simp [items, ha.items, hflat, hpositions]
    have hitems : Function.update (Function.update S (nestedFlat idx) .bound) (nestedPositions idx) .bound (plain .items) = .bound := by
      rw [hsame _ (by simp), ha.items]
    have hflatBound : Function.update (Function.update S (nestedFlat idx) .bound) (nestedPositions idx) .bound (nestedFlat idx) =
        .bound := by simp
    have hscan := ctbLeafScanDepth0_clean haccess optionLayers chain hitems hflatBound
      (fun _ => Function.update_self ..) (hfree _ hsame)
    have hscope := materializeScope ha hh hsame (by simp [consumeTemps]) hflatBound
    rw [clean_block]
    refine Code.clean_append.mpr ⟨Code.clean_append.mpr ⟨hdecls, by rwa [hexit]⟩, ?_⟩
    rw [Code.exit_append, ctbLeafScanDepth0_closed, hexit]
    exact materializeLeaf_clean hscope hitems (Or.inr ⟨rfl, Function.update_self ..⟩)
  · rename_i shape
    refine nestedVecBlock_clean (nested_of haccess) rfl ha hh (hhelper shape.layers.len_pos) (hagree shape rfl).layers
      (nestedArr_ids idx) (fun _ => ctbLeafBody_closed shape _ _) fun vecBind U hvec hclean hU => ?_
    exact ctbLeafBody_clean shape hU (nestedOwn_storage idx _) hvec hclean (by simp [nestedOwn])
      fun hoption => nestedPositions_mem ((hagree shape rfl).inner hoption)

end

end DfDerive.Scoped
