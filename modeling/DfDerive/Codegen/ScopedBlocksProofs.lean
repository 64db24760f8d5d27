/-
  DfDerive.Codegen.ScopedBlocksProofs — the blocks of columns read the names they bind.

  Below `Vec` layers a block counts, declares what it collects into, scans and assembles
  (`Collected`, `collect_clean`, `scan_clean`); what a leaf body may count on is a `LeafScope`.
  The blocks of primitive leaves are such blocks, of a field's own layers and of projected
  ones (`tryBuildVecEncoder_clean`, `emitProjectedVecPrimitive_clean`).
-/

import DfDerive.Codegen.ScopedLeavesProofs

namespace DfDerive.Scoped

open Lib Idents

/-! ## Collecting -/

/-- The names declared ahead of a scan. -/
def collectFamilies (kind : LayerKind) : List Family :=
  [.totalLeaves, .nestedTotal, .layerTotal kind, .layer kind .offsets, .layer kind .validityMb] ++ storageFamilies

/-- Where a scan starts: the leaf's storage and the layers' buffers are declared. -/
structure Collected (e : ShapeEmitter) (ns : LayerNamespace) (own : List Ident) (S T : Names Ident) : Prop where
  same : Same (collectFamilies ns.kind) S T
  total : T e.totalCounter = .bound
  own : ∀ i ∈ own, T i = .bound
  offsets : ∀ l < e.shape.depth, T (ns.part .offsets l) = .bound
  validity : ∀ l, HasValidity e.shape l → T (ns.part .validityMb l) = .bound

/-- The names a leaf body binds. -/
def leafTemps : List Ident :=
  [leafValue, leafValueRaw, plain .mantissa, plain .fmtErr, collapseOptionParam, tupleProjParam, nestedMaybe, tupleNestedInnerV]

/-- Where a leaf body is spliced. -/
structure LeafScope (own : List Ident) (U : Names Ident) : Prop where
  own : ∀ i ∈ own, U i = .bound
  free : ∀ i ∈ leafTemps, U i = .free

/-- The names of a leaf's storage. -/
abbrev Storage (idx : Nat) (own : List Ident) : Prop := ∀ i ∈ own, i.family ∈ storageFamilies ∧ InBlock idx i

section

variable {e : ShapeEmitter} {ns : LayerNamespace} {idx : Nat} {own : List Ident} {S T : Names Ident}

theorem Same.ofDeclares {fs : List Family} {c : TokenStream} (h : c.Declares own) (hown : ∀ i ∈ own, i.family ∈ fs) :
    Same fs S (c.exit S) := fun i hi => by
  rw [h, Names.bindAll_of_not_mem fun hmem => hi (hown i hmem)]

theorem Same.apart {fs gs : List Family} (h : Same fs S T) {i : Ident} (hi : i.family ∈ gs) (hgs : ∀ f ∈ gs, f ∉ fs) :
    T i = S i :=
  h i (hgs _ hi)

/-- The code ahead of a scan, given that of the leaf's storage. -/
theorem collect_clean (he : e.Of ns) (ha : Ambient idx S) (hown : Storage idx own) {storage : TokenStream}
    (hdeclares : storage.Declares own)
    (hstorage : ∀ T : Names Ident, T e.totalCounter = .bound → T bitmapBuilder = .free → (∀ i ∈ own, T i = .free) → storage.Clean T) :
    let decls := e.precount ++ storage ++ e.offsetsDecls ++ e.validityDecls
    decls.Clean S ∧ Collected e ns own S (decls.exit S) := by
  obtain ⟨hprecount, hcounted⟩ := e.precount_clean he ha
  have hcountedSame := hcounted.same
  generalize hT₁ : e.precount.exit S = T₁ at hcounted hcountedSame
  have hstorage₁ : storage.Clean T₁ := by
    refine hstorage T₁ hcounted.total ?_ fun i hi => ?_
    · rw [hcountedSame _ (by simp), ha.free bitmapBuilder trivial]
    · rw [hcountedSame.apart (hown i hi).1 (by simp [storageFamilies]), ha.free i (hown i hi).2]
  have hsame₂ : Same storageFamilies T₁ (storage.exit T₁) := .ofDeclares hdeclares fun i hi => (hown i hi).1
  have hown₂ : ∀ i ∈ own, storage.exit T₁ i = .bound := fun i hi => by rw [hdeclares, Names.bindAll_mem hi]
  have hall₂ := hcountedSame.trans hsame₂
  generalize hT₂ : storage.exit T₁ = T₂ at hsame₂ hown₂ hall₂
  have hitems₂ : T₂ (plain .items) = .bound := by rw [hall₂ _ (by simp [storageFamilies]), ha.items]
  have hcounters₂ : ∀ l, l + 1 < e.shape.depth → T₂ (e.layerCounters l) = .bound := fun l hl => by
    rw [hsame₂ _ (by simp [he.countersFamily, storageFamilies]), hcounted.counters l hl]
  obtain ⟨hoffsets, hoffsetsDeclared⟩ := e.offsetsDecls_clean he hitems₂ hcounters₂ fun l => by
    rw [hall₂ _ (by simp [storageFamilies]), ha.free (ns.part .offsets l) trivial]
  have hsame₃ : Same [.layer ns.kind .offsets] T₂ _ := .ofDeclared hoffsetsDeclared fun l => by simp
  generalize hT₃ : e.offsetsDecls.exit T₂ = T₃ at hoffsetsDeclared hsame₃
  obtain ⟨hvalidity, hvalidityDeclared⟩ := e.validityDecls_clean he (T := T₃) (by rw [hsame₃ _ (by simp), hitems₂])
    (fun l hl => by rw [hsame₃ _ (by simp [he.countersFamily]), hcounters₂ l hl]) fun l => by
      rw [hsame₃ _ (by simp), hall₂ _ (by simp [storageFamilies]), ha.free (ns.part .validityMb l) trivial]
  have hsame₄ : Same [.layer ns.kind .validityMb] T₃ _ := .ofDeclared hvalidityDeclared fun l => by simp
  have hexit : (e.precount ++ storage ++ e.offsetsDecls ++ e.validityDecls).exit S = e.validityDecls.exit T₃ := by
    simp only [Code.exit_append, hT₁, hT₂, hT₃]
  dsimp only
  rw [hexit]
  refine ⟨?_, ?_⟩
  · simp only [Code.clean_append, Code.exit_append, hT₁, hT₂, hT₃]
    exact ⟨⟨⟨hprecount, hstorage₁⟩, hoffsets⟩, hvalidity⟩
  · generalize e.validityDecls.exit T₃ = T₄ at hvalidityDeclared hsame₄
    have hdecls := hsame₃.trans hsame₄
    refine ⟨((hall₂.trans hdecls).mono ?_), ?_, fun i hi => ?_, fun l hl => ?_, fun l hl => ?_⟩
    · simp [collectFamilies, storageFamilies]
    · rw [hdecls _ (he.total_not_mem (by simp) (by simp)), hsame₂ _ (he.total_not_mem (by simp [storageFamilies]) (by simp [storageFamilies])),
        hcounted.total]
    · rw [hdecls.apart (hown i hi).1 (by simp [storageFamilies]), hown₂ i hi]
    · rw [hsame₄ _ (by simp), hoffsetsDeclared.bound l hl trivial]
    · obtain ⟨spec, hspec, -⟩ := id hl
      exact hvalidityDeclared.bound l (layer_lt_depth hspec) hl

theorem Collected.leafScope (h : Collected e ns own S T) (ha : Ambient idx S) (hown : Storage idx own)
    {pre : OuterSomePrefix} {U : Names Ident} (hU : Same (walkFamilies ns.kind pre) T U) : LeafScope own U := by
  refine ⟨fun i hi => ?_, fun i hi => ?_⟩
  · rw [hU.apart (hown i hi).1 (by simp [storageFamilies, walkFamilies]), h.own i hi]
  · have hblock : ∀ j ∈ leafTemps, InBlock idx j := by simp [leafTemps, InBlock]
    have hfamily : i.family ∈ leafTemps.map Ident.family := List.mem_map_of_mem hi
    rw [hU.apart hfamily (by simp [leafTemps, walkFamilies]),
      h.same.apart hfamily (by simp [leafTemps, collectFamilies, storageFamilies]), ha.free i (hblock i hi)]

/-- The scan over what is collected. -/
theorem scan_clean (he : e.Of ns) (ha : Ambient idx S) (hown : Storage idx own) (h : Collected e ns own S T)
    (hagree : ∀ spec ∈ e.shape.layers.toList, .option ∈ spec.access.steps → spec.hasOuterValidity = true)
    {leafBody : TokenStream → TokenStream} (hclosed : ∀ vecBind : TokenStream, vecBind.Closed → (leafBody vecBind).Closed)
    (hleaf : ∀ (vecBind : TokenStream) (U : Names Ident), vecBind.Closed → vecBind.Clean U → LeafScope own U →
      (leafBody vecBind).Clean U) {i : Ident} (hi : i ∈ own) : (e.scan leafBody (use [i])).Clean T := by
  have hstart := he.walkStart ha h.same e.outerSomePrefix (by simp [collectFamilies, storageFamilies, walkFamilies])
  have hready : ShapeScan.Ready ⟨e.shape, e.access, e.layers, e.outerSomePrefix, leafBody, use [i], e.projection⟩ ns T :=
    { layers := he.layers
      param := hstart.param
      offset := by rw [h.same _ (by simp [collectFamilies, storageFamilies]), ha.free listOffset trivial]
      offsets := h.offsets
      validity := fun l spec hspec hoption => h.validity l ⟨spec, hspec, hagree spec (List.mem_of_getElem? hspec) hoption⟩
      leafClosed := hclosed
      leafBody := fun U hU vecBind hvec hclean => hleaf vecBind U hvec hclean (h.leafScope ha hown hU)
      postClosed := fun _ => by simp
      post := fun U hU => by simp [(h.leafScope ha hown hU).own i hi] }
  exact ShapeScan.build_clean hready hstart

theorem scan_closed (e : ShapeEmitter) (leafBody : TokenStream → TokenStream) (post : TokenStream) :
    (e.scan leafBody post).Closed :=
  fun S => by simp [ShapeEmitter.scan]

end

/-! ## Leaf bodies -/

/-- Where the push of an element is spliced. -/
structure PushScope (own : List Ident) (U : Names Ident) : Prop where
  own : ∀ i ∈ own, U i = .bound
  leafValue : U leafValue = .bound
  mantissa : U (plain .mantissa) = .free
  fmtErr : U (plain .fmtErr) = .free
  innerV : U tupleNestedInnerV = .free

section

variable {idx : Nat} {own : List Ident} {T : Names Ident} {vecBind push : TokenStream}

/-- Past the binder of the value, and past that of the raw element it may come from. -/
theorem LeafScope.pushScope (h : LeafScope own T) (hown : Storage idx own) {U : Names Ident}
    (hU : Same [.leafValue, .leafValueRaw] T U) (hvalue : U leafValue = .bound) : PushScope own U := by
  refine ⟨fun i hi => ?_, hvalue, ?_, ?_, ?_⟩
  · rw [hU.apart (hown i hi).1 (by simp [storageFamilies]), h.own i hi]
  · rw [hU _ (by simp), h.free _ (by simp [leafTemps])]
  · rw [hU _ (by simp), h.free _ (by simp [leafTemps])]
  · rw [hU _ (by simp), h.free _ (by simp [leafTemps])]

theorem LeafScope.bindValue (h : LeafScope own T) (hown : Storage idx own) :
    PushScope own (Function.update T leafValue .bound) :=
  h.pushScope hown ((Same.refl _ T).update (by simp) _) (Function.update_self ..)

theorem LeafScope.bindRaw (h : LeafScope own T) (hown : Storage idx own) :
    PushScope own (Function.update (Function.update T leafValueRaw .bound) leafValue .bound) :=
  h.pushScope hown (((Same.refl _ T).update (by simp) _).update (by simp) _) (Function.update_self ..)

/-- Past the raw element the closure parameters of its access are still free. -/
theorem LeafScope.raw (h : LeafScope own T) :
    Function.update T leafValueRaw .bound collapseOptionParam = .free ∧
      Function.update T leafValueRaw .bound tupleProjParam = .free ∧ Function.update T leafValueRaw .bound leafValue = .free := by
  refine ⟨?_, ?_, ?_⟩
  · rw [Function.update_of_ne (by simp), h.free _ (by simp [leafTemps])]
  · rw [Function.update_of_ne (by simp), h.free _ (by simp [leafTemps])]
  · rw [Function.update_of_ne (by simp), h.free _ (by simp [leafTemps])]

/-- A loop that binds the raw element and, from it, the value. -/
theorem rawLoop_clean (h : LeafScope own T) (hown : Storage idx own) (hvec : vecBind.Closed) (hclean : vecBind.Clean T)
    {value : TokenStream} (hvalueClosed : value.Closed)
    (hvalue : ∀ U : Names Ident, U leafValueRaw = .bound → U collapseOptionParam = .free → U tupleProjParam = .free → value.Clean U)
    (hpush : ∀ U, PushScope own U → push.Clean U) :
    (forIn leafValueRaw vecBind (letIn leafValue value ++ push)).Clean T := by
  obtain ⟨hparam, hproj, hfree⟩ := h.raw
  rw [clean_forIn, hvec T, Code.clean_append, clean_letIn, exit_letIn, hvalueClosed]
  exact ⟨hclean, h.free _ (by simp [leafTemps]), ⟨hvalue _ (Function.update_self ..) hparam hproj, hfree⟩,
    hpush _ (h.bindRaw hown)⟩

theorem pepLeafBody_closed (shape : VecLayers) (push : TokenStream) (hvec : vecBind.Closed) :
    (pepLeafBody shape push vecBind).Closed := by
  intro S
  unfold pepLeafBody
  split <;> simp [hvec S]

theorem pepLeafBody_clean (shape : VecLayers) (h : LeafScope own T) (hown : Storage idx own) (hvec : vecBind.Closed)
    (hclean : vecBind.Clean T) (hpush : ∀ U, PushScope own U → push.Clean U) :
    (pepLeafBody shape push vecBind).Clean T := by
  unfold pepLeafBody
  split
  · rw [clean_forIn, hvec T]
    exact ⟨hclean, h.free _ (by simp [leafTemps]), hpush _ (h.bindValue hown)⟩
  · obtain ⟨hexpr, haccess⟩ := wraps_accessChainToRef (use [leafValueRaw]) shape.innerAccess fun S => by simp
    exact rawLoop_clean h hown hvec hclean hexpr (fun U hraw hparam _ => haccess U hparam (by simp [hraw])) hpush

theorem applyElementAccess_wraps (projected : TokenStream) (access : AccessChain) :
    Wraps projected (applyElementAccess projected access) := by
  unfold applyElementAccess
  split
  · exact wraps_accessChainToOptionRef _ _
  · exact wraps_accessChainToRef _ _

theorem projectedLeafExpr_clean (projection : LayerProjection) (access : AccessChain) :
    (projectedLeafExpr leafValueRaw projection access).Closed ∧ ∀ U : Names Ident, U leafValueRaw = .bound →
      U collapseOptionParam = .free → U tupleProjParam = .free → (projectedLeafExpr leafValueRaw projection access).Clean U := by
  unfold projectedLeafExpr
  split
  · obtain ⟨hbase, hbaseClean⟩ := wraps_accessChainToOptionRef (use [leafValueRaw]) projection.parentAccess fun S => by simp
    obtain ⟨-, helement⟩ := applyElementAccess_wraps (use [tupleProjParam]) access fun S => by simp
    refine ⟨fun S => by rw [Code.exit_append, hbase S, exit_closure], fun U hraw hparam hproj => ?_⟩
    have hbody := helement (Function.update U tupleProjParam .bound) (by rw [Function.update_of_ne (by simp), hparam]) (by simp)
    refine Code.clean_append.mpr ⟨hbaseClean U hparam (by simp [hraw]), ?_⟩
    rw [hbase U, clean_closure]
    exact ⟨hproj, hbody⟩
  · obtain ⟨hclosed, hclean⟩ := (wraps_accessChainToRef (use [leafValueRaw]) projection.parentAccess).trans
      (applyElementAccess_wraps _ access) fun S => by simp
    exact ⟨hclosed, fun U hraw hparam _ => hclean U hparam (by simp [hraw])⟩

theorem projectedScanLeafBody_closed (shape : VecLayers) (projection : LayerProjection) (push : TokenStream)
    (hvec : vecBind.Closed) : (projectedScanLeafBody shape projection push vecBind).Closed := by
  intro S
  unfold projectedScanLeafBody
  split
  · simp [projectedLeafBody, hvec S]
  · exact pepLeafBody_closed shape push hvec S

theorem projectedScanLeafBody_clean (shape : VecLayers) (projection : LayerProjection) (h : LeafScope own T)
    (hown : Storage idx own) (hvec : vecBind.Closed) (hclean : vecBind.Clean T)
    (hpush : ∀ U, PushScope own U → push.Clean U) :
    (projectedScanLeafBody shape projection push vecBind).Clean T := by
  unfold projectedScanLeafBody
  split
  · rename_i access _
    obtain ⟨hexpr, hexprClean⟩ := projectedLeafExpr_clean projection access
    exact rawLoop_clean h hown hvec hclean hexpr hexprClean hpush
  · exact pepLeafBody_clean shape h hown hvec hclean hpush

/-- The value of a nested leaf, with its position among the present ones. -/
theorem ctbMatch_clean {flat positions : Ident} {scrutinee : TokenStream} {U : Names Ident} (hclosed : scrutinee.Closed)
    (hclean : scrutinee.Clean U) (hvalue : U leafValue = .free) (hflat : U flat = .bound)
    (hpositions : U positions = .bound) :
    (ctbMatch flat positions scrutinee).Clean U := by
  have hne : ∀ i, U i = .bound → i ≠ leafValue := by rintro i hi rfl; rw [hvalue] at hi; cases hi
  simp [ctbMatch, idxSizeLenExpr, hclean, hclosed U, hvalue, Function.update_of_ne (hne _ hflat),
    Function.update_of_ne (hne _ hpositions), hflat, hpositions]

theorem ctbLeafBody_closed (shape : VecLayers) (flat positions : Ident) (hvec : vecBind.Closed) :
    (ctbLeafBody shape flat positions vecBind).Closed := by
  intro S
  unfold ctbLeafBody
  dsimp only
  split
  · simp [hvec S]
  · split
    · simp [hvec S]
    · split <;> simp [hvec S]

/-- A nested leaf has positions to write where its chain has an `Option`. -/
theorem ctbLeafBody_clean (shape : VecLayers) {flat positions : Ident} (h : LeafScope own T) (hown : Storage idx own)
    (hvec : vecBind.Closed) (hclean : vecBind.Clean T) (hflat : flat ∈ own)
    (hpositions : .option ∈ shape.innerAccess.steps → positions ∈ own) :
    (ctbLeafBody shape flat positions vecBind).Clean T := by
  have hbound : ∀ {U : Names Ident} {i : Ident}, i ∈ own → ∀ {j : Ident}, j.family ∉ storageFamilies →
      U i = .bound → Function.update U j .bound i = .bound := by
    intro U i hi j hj hU
    rw [Function.update_of_ne (by rintro rfl; exact hj (hown i hi).1), hU]
  unfold ctbLeafBody
  dsimp only
  split
  · rw [clean_forIn, hvec T]
    exact ⟨hclean, h.free _ (by simp [leafTemps]), by simp [(h.bindValue hown).own flat hflat]⟩
  · split
    · rename_i hsingle
      have hoption : .option ∈ shape.innerAccess.steps := by
        simp only [AccessChain.isSinglePlainOption, beq_iff_eq] at hsingle
        simp [hsingle]
      rw [clean_forIn, hvec T]
      refine ⟨hclean, h.free _ (by simp [leafTemps]), ctbMatch_clean (fun S => by simp) (by simp) ?_ ?_ ?_⟩
      · rw [Function.update_of_ne (by simp), h.free _ (by simp [leafTemps])]
      · exact hbound hflat (by simp [storageFamilies]) (h.own _ hflat)
      · exact hbound (hpositions hoption) (by simp [storageFamilies]) (h.own _ (hpositions hoption))
    · obtain ⟨hexpr, hexprClean⟩ := wraps_accessChainToRef (use [leafValueRaw]) shape.innerAccess fun S => by simp
      split
      · rename_i hoption
        rw [accessChainToRef_hasOption, decide_eq_true_eq] at hoption
        obtain ⟨hparam, -, hvalue⟩ := h.raw
        rw [clean_forIn, hvec T]
        refine ⟨hclean, h.free _ (by simp [leafTemps]), ctbMatch_clean hexpr (hexprClean _ hparam (by simp)) hvalue ?_ ?_⟩
        · exact hbound hflat (by simp [storageFamilies]) (h.own _ hflat)
        · exact hbound (hpositions hoption) (by simp [storageFamilies]) (h.own _ (hpositions hoption))
      · exact rawLoop_clean h hown hvec hclean hexpr (fun U hraw hparam _ => hexprClean U hparam (by simp [hraw]))
          fun U hU => by simp [hU.own flat hflat, hU.leafValue]

theorem projectedNestedPush_clean (shape : VecLayers) {flat positions : Ident} (hown : Storage idx own) (hflat : flat ∈ own)
    (hpositions : shape.hasInnerOption = true → positions ∈ own) {U : Names Ident} (hU : PushScope own U) :
    (projectedNestedPush shape flat positions).Clean U := by
  unfold projectedNestedPush
  split
  · rename_i hoption
    have hne : ∀ i ∈ own, i ≠ tupleNestedInnerV := by
      rintro i hi rfl
      have hfamily := (hown _ hi).1
      simp [storageFamilies] at hfamily
    have hpos := hpositions hoption
    simp [idxSizeLenExpr, hU.leafValue, hU.innerV, Function.update_of_ne (hne _ hflat), Function.update_of_ne (hne _ hpos),
      hU.own _ hflat, hU.own _ hpos]
  · simp [hU.own flat hflat, hU.leafValue]

end

/-! ## Primitive leaves below `Vec` layers -/

theorem rowAccess_row : RowAccess (use [populatorIter]) := ⟨fun S => by simp, fun T hit _ _ => by simp [hit]⟩

theorem vec_of {shape : VecLayers} {access : TokenStream} (h : RowAccess access) :
    (ShapeEmitter.vec shape access).Of .vec where
  layers := rfl
  counters l m h := by simpa [ShapeEmitter.vec] using h
  countersFamily _ := rfl
  totalFamily := by simp [ShapeEmitter.vec]
  access := h

theorem nested_of {idx : Nat} {shape : VecLayers} {access : TokenStream} (h : RowAccess access) :
    (ShapeEmitter.nested idx shape access).Of (.nested idx) where
  layers := rfl
  counters l m h := by simpa [ShapeEmitter.nested] using h
  countersFamily _ := rfl
  totalFamily := by simp [ShapeEmitter.nested]
  access := h

theorem tuple_of {idx : Nat} {shape : VecLayers} {access : TokenStream} {total : Ident} {projection : LayerProjection}
    (h : RowAccess access) (htotal : total.family ∈ [.totalLeaves, .nestedTotal]) :
    (ShapeEmitter.tuple idx shape access total projection).Of (.tuple idx) where
  layers := rfl
  counters l m h := by simpa [ShapeEmitter.tuple] using h
  countersFamily _ := rfl
  totalFamily := htotal
  access := h

theorem vecArr_ids : ArrIds vecLayerListArr .vec := ⟨fun l m h => by simpa using h, fun _ => rfl⟩

theorem nestedArr_ids (idx : Nat) : ArrIds nestedLayerListArr (.nested idx) := ⟨fun l m h => by simpa using h, fun _ => rfl⟩

theorem tupleArr_ids (idx : Nat) : ArrIds tupleLayerListArr (.tuple idx) := ⟨fun l m h => by simpa using h, fun _ => rfl⟩

theorem ArrIds.free {arr : Nat → Ident} {ns : LayerNamespace} (h : ArrIds arr ns) {idx : Nat} {S : Names Ident}
    (ha : Ambient idx S) (l : Nat) : S (arr l) = .free := ha.free _ (by simp [InBlock, h.family])

section

variable {e : ShapeEmitter} {ns : LayerNamespace} {idx : Nat} {own : List Ident} {S T : Names Ident} {arr : Nat → Ident}

theorem wraps_ne_nil (shape : VecLayers) (layers : Nat → LayerIdents) :
    shapeLayerWrapsMove shape layers ≠ [] ∧ shapeLayerWrapsClone shape layers ≠ [] := by
  constructor <;> intro h
  · have := congrArg List.length h
    simp [shapeLayerWrapsMove, NonEmpty.len] at this
  · have := congrArg List.length h
    simp [shapeLayerWrapsClone, NonEmpty.len] at this

theorem pepMaterialize_clean (he : e.Of ns) (ha : Ambient idx S) (hhelper : S (helper .assembleHelper) = .bound)
    (harr : ArrIds arr ns) (h : Collected e ns own S T) {pep : LeafPieces} (hpep : pep.Ready idx own) :
    (pepMaterialize e pep.leafArr arr).Clean T := by
  have hleafArr : T leafArr = .free := by
    rw [h.same _ (by simp [collectFamilies, storageFamilies]), ha.free leafArr trivial]
  have hdtype : T seedArrowDtype = .free := by
    rw [h.same _ (by simp [collectFamilies, storageFamilies]), ha.free seedArrowDtype trivial]
  have hsame : Same ([.leafArr] ++ [.seedArrowDtype]) T (Function.update (pep.leafArr.exit T) seedArrowDtype .bound) :=
    (Same.ofDeclares hpep.leafArrDeclares (by simp)).trans ((Same.refl _ _).update (by simp) _)
  have hseed : pep.leafArr.exit T leafArr = .bound := by rw [hpep.leafArrDeclares, Names.bindAll_mem (by simp)]
  have hlist : (shapeAssembleListStack (use [leafArr]) (use [seedArrowDtype]) (shapeLayerWrapsMove e.shape e.layers) .done arr).Clean
      (Function.update (pep.leafArr.exit T) seedArrowDtype .bound) := by
    have hall := h.same.trans hsame
    have hfree : ∀ p : LayerPart, p = .offsetsBuf ∨ p = .validityBm → ∀ l,
        Function.update (pep.leafArr.exit T) seedArrowDtype .bound (ns.part p l) = .free := by
      intro p hp l
      rw [hall _ (by rcases hp with rfl | rfl <;> simp [collectFamilies, storageFamilies]), ha.free (ns.part p l) trivial]
    rw [he.layers]
    refine shapeAssembleListStack_clean harr ?_ (Function.update_self ..) (by simp [listFamilies]) (by simp [listFamilies])
      (fun l => ?_) (wraps_ne_nil e.shape _).1 (fun l w hw U hU => ?_) ?_ fun _ _ => trivial
    · rw [Function.update_of_ne (by simp), hseed]
    · rw [hall _ (by simp [harr.family, collectFamilies, storageFamilies]), harr.free ha]
    · refine shapeLayerWrapsMove_ready (fun l hl => ?_) (fun l hl => ?_) (hfree _ (Or.inl rfl)) (hfree _ (Or.inr rfl)) l w hw hU
      · rw [hsame _ (by simp), h.offsets l hl]
      · rw [hsame _ (by simp), h.validity l hl]
    · rw [hall _ (by simp [collectFamilies, storageFamilies]), hhelper]
  simp only [pepMaterialize, Code.clean_append, Code.exit_append, clean_letIn, exit_letIn, exit_use, clean_use]
  refine ⟨⟨hpep.leafArr T h.own hleafArr, ?_, ?_⟩, hlist⟩
  · simpa using hseed
  · rw [hpep.leafArrDeclares, Names.bindAll_of_not_mem (by simp), hdtype]

/-- The layers whose chain has an `Option` are those flagged for it. -/
abbrev Agrees (shape : VecLayers) : Prop :=
  ∀ spec ∈ shape.layers.toList, .option ∈ spec.access.steps → spec.hasOuterValidity = true

theorem pushNamed_clean {series : Ident} (hseries : T series = .bound) (hnamed : T fieldNamedSeries = .free)
    (hcolumns : T columns = .bound) : (pushNamed series).Clean T := by
  simp [pushNamed, hseries, hnamed, hcolumns]

/-- A column's series in a block of its own, pushed under its name. -/
theorem seriesBlock_clean (ha : Ambient idx S) {series : TokenStream} (hseries : series.Clean S) :
    (block (letIn (vecFieldSeries idx) (block series) ++ pushNamed (vecFieldSeries idx))).Clean S := by
  have hfree : S (vecFieldSeries idx) = .free := ha.free _ trivial
  rw [clean_block, Code.clean_append, clean_letIn, exit_letIn, clean_block, exit_block]
  refine ⟨⟨hseries, hfree⟩, pushNamed_clean (Function.update_self ..) ?_ ?_⟩
  · rw [Function.update_of_ne (by simp), ha.free fieldNamedSeries trivial]
  · rw [Function.update_of_ne (by simp), ha.columns]

/-- The block of a primitive leaf, whatever walks its elements. -/
theorem pepBlock_clean (he : e.Of ns) (htotal : e.totalCounter = totalLeaves) (ha : Ambient idx S)
    (hhelper : S (helper .assembleHelper) = .bound) (hagree : Agrees e.shape) (harr : ArrIds arr ns) {pep : LeafPieces}
    (hpep : pep.Ready idx own) {leafBody : TokenStream → TokenStream}
    (hclosed : ∀ vecBind : TokenStream, vecBind.Closed → (leafBody vecBind).Closed)
    (hleaf : ∀ (vecBind : TokenStream) (U : Names Ident), vecBind.Closed → vecBind.Clean U → LeafScope own U →
      (leafBody vecBind).Clean U) {i : Ident} (hi : i ∈ own) :
    (block (pepSeries e idx pep leafBody (use [i]) arr ++ pushNamed (vecFieldSeries idx))).Clean S := by
  obtain ⟨hdecls, hcollected⟩ := collect_clean he ha hpep.names hpep.declares (by rw [htotal]; exact hpep.storage)
  refine seriesBlock_clean ha ?_
  have hscan := scan_clean he ha hpep.names hcollected hagree hclosed hleaf hi
  refine Code.clean_append.mpr ⟨Code.clean_append.mpr ⟨hdecls, hscan⟩, ?_⟩
  rw [Code.exit_append, scan_closed]
  exact pepMaterialize_clean he ha hhelper harr hcollected hpep

theorem LeafPieces.Ready.pushScope {pep : LeafPieces} (hpep : pep.Ready idx own) (U : Names Ident) (hU : PushScope own U) :
    pep.push.Clean U :=
  hpep.push U hU.leafValue hU.mantissa hU.fmtErr hU.own

theorem vecEncoder_clean (ha : Ambient idx S) (hhelper : S (helper .assembleHelper) = .bound) {access : TokenStream}
    (haccess : RowAccess access) (leaf : PrimitiveLeaf) {shape : VecLayers} (hagree : Agrees shape) :
    (vecEncoder ⟨access, idx⟩ leaf shape).Clean S := by
  obtain ⟨own, hpep, i, hi, hpost⟩ := pepForPrimitiveLeaf_ready leaf idx shape
  unfold vecEncoder
  dsimp only
  rw [hpost]
  exact pepBlock_clean (vec_of haccess) rfl ha hhelper hagree vecArr_ids hpep (fun _ => pepLeafBody_closed shape _)
    (fun _ _ hvec hclean hU => pepLeafBody_clean shape hU hpep.names hvec hclean hpep.pushScope) hi

theorem boolBareDepth1Body_clean (ha : Ambient idx S) (hhelper : S (helper .assembleHelper) = .bound) {access : TokenStream}
    (haccess : RowAccess access) : (boolBareDepth1Body access).Clean S := by
  have hfree : ∀ i ∈ [totalLeaves, populatorIter, vecFlat, boolInnerOffsets, listOffset, leafArr, boolBareOffsetsBuf,
      boolBareListArr, collapseOptionParam, tupleProjParam], S i = .free := by
    refine fun i hi => ha.free i ?_
    revert i
    simp [InBlock]
  have hrow : ∀ T : Names Ident, Same [.totalLeaves, .vecFlat, .boolInnerOffsets, .populatorIter] S T → T populatorIter = .bound →
      access.Clean T := fun T hT hit => by
    refine haccess.clean T hit ?_ ?_
    · rw [hT _ (by simp), hfree _ (by simp)]
    · rw [hT _ (by simp), hfree _ (by simp)]
  have hcount := hrow (Function.update (Function.update S totalLeaves .bound) populatorIter .bound)
    (((Same.refl _ S).update (by simp) _).update (by simp) _) (Function.update_self ..)
  have hdeclared : Same [.totalLeaves, .vecFlat, .boolInnerOffsets, .populatorIter] S
      (Function.update (Function.update (Function.update S totalLeaves .bound) vecFlat .bound) boolInnerOffsets .bound) :=
    (((Same.refl _ S).update (by simp) _).update (by simp) _).update (by simp) _
  have hscan := hrow _ (hdeclared.update (i := populatorIter) (by simp) .bound) (Function.update_self ..)
  simp [boolBareDepth1Body, listOffsetI64Expr, items, hfree, ha.items, hhelper, haccess.closed _, hcount, hscan]

theorem tryBuildVecEncoder_clean (ha : Ambient idx S) (hhelper : S (helper .assembleHelper) = .bound) {access : TokenStream}
    (haccess : RowAccess access) (leaf : PrimitiveLeaf) {shape : VecLayers} (hagree : Agrees shape) :
    (tryBuildVecEncoder ⟨access, idx⟩ leaf shape).Clean S := by
  unfold tryBuildVecEncoder
  split
  · split
    · exact vecEncoder_clean ha hhelper haccess .bool hagree
    · unfold vecEncoderBoolBare
      split
      · exact seriesBlock_clean ha (boolBareDepth1Body_clean ha hhelper haccess)
      · exact vecEncoder_clean ha hhelper haccess .bool hagree
  · exact vecEncoder_clean ha hhelper haccess leaf hagree

theorem emitProjectedVecPrimitive_clean (ha : Ambient idx S) (hhelper : S (helper .assembleHelper) = .bound)
    {shape : VecLayers} (hagree : Agrees shape) (projection : LayerProjection) (leaf : PrimitiveLeaf) :
    (emitProjectedVecPrimitive idx shape projection leaf).Clean S := by
  obtain ⟨own, hpep, i, hi, hpost⟩ := pepForPrimitiveLeaf_ready leaf idx shape
  unfold emitProjectedVecPrimitive
  dsimp only
  rw [hpost]
  exact pepBlock_clean (tuple_of rowAccess_row (by simp)) rfl ha hhelper hagree (tupleArr_ids idx) hpep
    (fun _ => projectedScanLeafBody_closed shape projection _)
    (fun _ _ hvec hclean hU => projectedScanLeafBody_clean shape projection hU hpep.names hvec hclean hpep.pushScope) hi

end

end DfDerive.Scoped
