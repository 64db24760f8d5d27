/-
  DfDerive.Codegen.ScopedLeavesProofs — the leaves read the names they bind.

  A row-wise leaf declares the names of its column, and its push and its series read no
  other ones (`buildLeaf_ready`, `wrapOptionAccessChainPrimitive_ready`). Below `Vec` layers
  its buffers are a block's own, and the push reads them and the leaf value
  (`pepForPrimitiveLeaf_ready`).
-/

import DfDerive.Codegen.ScopedBlocks
import DfDerive.Codegen.ScopedListsProofs

namespace DfDerive.Scoped

open Lib Idents

/-! ## Declarations -/

theorem letIn_declares (i : Ident) {init : TokenStream} (h : init.Closed) : (letIn i init).Declares [i] := fun S => by
  rw [exit_letIn, h, Names.update_eq_bindAll]

theorem vecDecl_declares (buf : Ident) : (vecDecl buf).Declares [buf] := letIn_declares buf fun S => by simp [items]

theorem mbDecl_declares (i : Ident) : (mbDecl i).Declares [i] := letIn_declares i fun S => by simp [items]

theorem mbDeclFilled_declares (i : Ident) (capacity : TokenStream) : (mbDeclFilled i capacity).Declares [i] :=
  letIn_declares i fun S => by simp

theorem rowIdxDecl_declares (i : Ident) : (rowIdxDecl i).Declares [i] := letIn_declares i fun _ => rfl

/-! ## Row-wise leaves -/

/-- The names bound around the row loop, with the index of their column. -/
abbrev rowFamilies : List Family := [.buf, .validity, .rowIdx, .strScratch]

theorem inBlock_row {idx : Nat} {i : Ident} (h : i.family ∈ rowFamilies) : InBlock idx i ↔ i.indices = [idx] := by
  simp only [List.mem_cons, List.not_mem_nil, or_false] at h
  rcases h with h | h | h | h <;> simp [InBlock, h]

/-- The names a push binds for itself are free. -/
structure Temps (T : Names Ident) : Prop where
  leafValue : T leafValue = .free
  mantissa : T (plain .mantissa) = .free
  fmtErr : T (plain .fmtErr) = .free
  param : T collapseOptionParam = .free

theorem Temps.update {T : Names Ident} (h : Temps T) {i : Ident}
    (hi : i ∉ [Idents.leafValue, plain .mantissa, plain .fmtErr, collapseOptionParam]) (s : Status) : Temps (Function.update T i s) := by
  simp only [List.mem_cons, List.not_mem_nil, or_false, not_or] at hi
  obtain ⟨hvalue, hmantissa, herr, hparam⟩ := hi
  refine ⟨?_, ?_, ?_, ?_⟩
  · rw [Function.update_of_ne (Ne.symm hvalue), h.leafValue]
  · rw [Function.update_of_ne (Ne.symm hmantissa), h.mantissa]
  · rw [Function.update_of_ne (Ne.symm herr), h.fmtErr]
  · rw [Function.update_of_ne (Ne.symm hparam), h.param]

/-- A leaf's parts: what is declared before the row loop, what its push reads in the loop
    and leaves declared there, and what is read behind it. -/
structure LeafArm.Ready (arm : LeafArm) (ctx : LeafCtx) (own locals : List Ident) : Prop where
  names : ∀ i ∈ own, i.family ∈ rowFamilies ∧ i.indices = [ctx.idx]
  decls : ∀ S : Names Ident, S (plain .items) = .bound → S bitmapBuilder = .free → (∀ i ∈ own, S i = .free) → arm.decls.Clean S
  declares : arm.decls.Declares own
  localNames : ∀ i ∈ locals, i = Idents.multiOptionLocal ctx.idx
  pushDeclares : arm.push.Declares locals
  push : ∀ T : Names Ident, ctx.access.Clean T → Temps T → (∀ i ∈ locals, T i = .free) → (∀ i ∈ own, T i = .bound) →
    arm.push.Clean T
  seriesClosed : arm.series.Closed
  series : ∀ T : Names Ident, (∀ i ∈ own, T i = .bound) → T (plain .arr) = .free → T (plain .ca) = .free →
    T (plain .s) = .free → arm.series.Clean T

/-- The declarations of a leaf besides its buffers: none, or the scratch string. -/
inductive Scratch (idx : Nat) : TokenStream → List Ident → Prop
  | none : Scratch idx .done []
  | str : Scratch idx (letIn (primitiveStrScratch idx) .done) [primitiveStrScratch idx]

theorem Scratch.declares {idx : Nat} {extraDecls : TokenStream} {extra : List Ident} (h : Scratch idx extraDecls extra) :
    extraDecls.Declares extra := by
  cases h with
  | none => exact Code.Closed.declares fun _ => rfl
  | str => exact letIn_declares _ fun _ => rfl

section

variable {ctx : LeafCtx}

/-- A leaf that declares the column's buffer alone. -/
theorem bufferArm_ready {push series : TokenStream} (hpushClosed : push.Closed)
    (hpush : ∀ T : Names Ident, ctx.access.Clean T → Temps T → T (primitiveBuf ctx.idx) = .bound → push.Clean T)
    (hseriesClosed : series.Closed)
    (hseries : ∀ T : Names Ident, T (primitiveBuf ctx.idx) = .bound → T (plain .ca) = .free → T (plain .s) = .free →
      series.Clean T) :
    LeafArm.Ready ⟨vecDecl (primitiveBuf ctx.idx), push, series⟩ ctx [primitiveBuf ctx.idx] [] where
  names := by simp
  decls S hitems _ hfree := by simp [vecDecl, items, hitems, hfree]
  declares := vecDecl_declares _
  localNames := by simp
  pushDeclares := hpushClosed.declares
  push T haccess htemps _ hown := hpush T haccess htemps (hown _ (by simp))
  seriesClosed := hseriesClosed
  series T hown _ hca hs := hseries T (hown _ (by simp)) hca hs

theorem numericLeaf_ready (hclosed : ctx.access.Closed) (kind : LeafArmKind) :
    ∃ own, (numericLeaf ctx kind).Ready ctx own [] := by
  cases kind with
  | bare =>
    refine ⟨_, bufferArm_ready (fun S => by simp) (fun T haccess _ hbuf => ?_) (fun S => by simp) fun T hbuf _ _ => ?_⟩
    · simp [haccess, hbuf]
    · simp [hbuf]
  | option receiver =>
    exact ⟨[primitiveBuf ctx.idx, primitiveValidity ctx.idx],
      { names := by simp
        decls := fun S hitems _ hfree => by simp [numericLeaf, vecDecl, mbDecl, items, hitems, hfree]
        declares := (vecDecl_declares _).append (mbDecl_declares _)
        localNames := by simp
        pushDeclares := Code.Closed.declares fun S => by simp [numericLeaf, hclosed S]
        push := fun T haccess htemps _ hown => by simp [numericLeaf, haccess, hclosed T, htemps.leafValue, hown]
        seriesClosed := fun S => by simp [numericLeaf]
        series := fun T hown harr _ _ => by simp [numericLeaf, hown, harr] }⟩

theorem boolLeaf_ready (hclosed : ctx.access.Closed) (kind : LeafArmKind) :
    ∃ own, (boolLeaf ctx kind).Ready ctx own [] := by
  cases kind with
  | bare =>
    refine ⟨_, bufferArm_ready (fun S => by simp) (fun T haccess _ hbuf => ?_) (fun S => by simp) fun T hbuf _ _ => ?_⟩
    · simp [haccess, hbuf]
    · simp [hbuf]
  | option receiver =>
    exact ⟨[primitiveBuf ctx.idx, primitiveValidity ctx.idx, primitiveRowIdx ctx.idx],
      { names := by simp
        decls := fun S hitems hbuilder hfree => by
          simp [boolLeaf, mbDeclFilled, rowIdxDecl, items, hitems, hbuilder, hfree]
        declares := ((mbDeclFilled_declares _ _).append (mbDeclFilled_declares _ _)).append (rowIdxDecl_declares _)
        localNames := by simp
        pushDeclares := Code.Closed.declares fun S => by simp [boolLeaf, hclosed S]
        push := fun T haccess htemps _ hown => by simp [boolLeaf, haccess, hclosed T, hown]
        seriesClosed := fun S => by simp [boolLeaf]
        series := fun T hown harr _ _ => by simp [boolLeaf, hown, harr] }⟩

/-- The leaves with a view array, from what each pushes. -/
theorem viewLeaf_ready {extraDecls barePush scrutinee somePush : TokenStream} {extra : List Ident}
    (hextra : Scratch ctx.idx extraDecls extra) (hbareClosed : barePush.Closed) (hscrutineeClosed : scrutinee.Closed)
    (hbare : ∀ T : Names Ident, ctx.access.Clean T → Temps T → T (primitiveBuf ctx.idx) = .bound → (∀ i ∈ extra, T i = .bound) →
      barePush.Clean T)
    (hscrutinee : ∀ T : Names Ident, ctx.access.Clean T → Temps T → scrutinee.Clean T)
    (hsome : ∀ T : Names Ident, T leafValue = .bound → T (plain .fmtErr) = .free → T (primitiveBuf ctx.idx) = .bound →
      (∀ i ∈ extra, T i = .bound) → somePush.Clean T) (kind : LeafArmKind) :
    ∃ own, (viewLeaf ctx extraDecls barePush scrutinee somePush kind).Ready ctx own [] := by
  cases kind with
  | bare =>
    exact ⟨[primitiveBuf ctx.idx] ++ extra,
      { names := by cases hextra <;> simp
        decls := fun S hitems _ hfree => by cases hextra <;> simp [viewLeaf, vecDecl, items, hitems, hfree]
        declares := (vecDecl_declares _).append hextra.declares
        localNames := by simp
        pushDeclares := hbareClosed.declares
        push := fun T haccess htemps _ hown => hbare T haccess htemps (hown _ (by simp)) fun i hi => hown i (by simp [hi])
        seriesClosed := fun S => by simp [viewLeaf]
        series := fun T hown _ _ _ => by simp [viewLeaf, hown] }⟩
  | option receiver =>
    refine ⟨[primitiveBuf ctx.idx] ++ extra ++ [primitiveValidity ctx.idx] ++ [primitiveRowIdx ctx.idx],
      { names := by cases hextra <;> simp
        decls := fun S hitems hbuilder hfree => by
          cases hextra <;> simp [viewLeaf, vecDecl, mbDeclFilled, rowIdxDecl, items, hitems, hbuilder, hfree]
        declares := (((vecDecl_declares _).append hextra.declares).append (mbDeclFilled_declares _ _)).append
          (rowIdxDecl_declares _)
        localNames := by simp
        pushDeclares := Code.Closed.declares fun S => by simp [viewLeaf, hscrutineeClosed S]
        push := fun T haccess htemps _ hown => ?_
        seriesClosed := fun S => by simp [viewLeaf]
        series := fun T hown _ _ _ => by simp [viewLeaf, hown] }⟩
    have harm : somePush.Clean (Function.update T leafValue .bound) := by
      refine hsome _ (Function.update_self ..) ?_ ?_ fun i hi => ?_
      · rw [Function.update_of_ne (by simp), htemps.fmtErr]
      · rw [Function.update_of_ne (by simp), hown _ (by simp)]
      · rw [Function.update_of_ne (by rintro rfl; cases hextra <;> simp at hi), hown i (by simp [hi])]
    simp [viewLeaf, hscrutinee T haccess htemps, hscrutineeClosed T, htemps.leafValue, harm, hown]

/-- A scalar transform reads the value it is given, and a mantissa of its own. -/
theorem mapPrimitiveExpr_closed {var : TokenStream} (hvar : var.Closed) (leaf : ScalarTransform) :
    (mapPrimitiveExpr var leaf).Closed := by
  intro S
  cases leaf <;> simp [mapPrimitiveExpr, hvar S]

theorem mapPrimitiveExpr_clean {var : TokenStream} (hvar : var.Closed) {T : Names Ident} (hclean : var.Clean T)
    (hmantissa : T (plain .mantissa) = .free) (leaf : ScalarTransform) : (mapPrimitiveExpr var leaf).Clean T := by
  cases leaf <;> simp [mapPrimitiveExpr, hvar T, hclean, hmantissa]

theorem mappedPush_closed (hclosed : ctx.access.Closed) (leaf : ScalarTransform) (kind : LeafArmKind) :
    (mappedPush ctx leaf kind).Closed := by
  intro S
  cases kind <;> simp [mappedPush, hclosed S]

theorem mappedPush_clean (hclosed : ctx.access.Closed) {T : Names Ident} (haccess : ctx.access.Clean T) (htemps : Temps T)
    (hbuf : T (primitiveBuf ctx.idx) = .bound) (leaf : ScalarTransform) (kind : LeafArmKind) :
    (mappedPush ctx leaf kind).Clean T := by
  cases kind with
  | bare => simp [mappedPush, hbuf, mapPrimitiveExpr_clean hclosed haccess htemps.mantissa leaf]
  | option receiver =>
    have hvalue : (mapPrimitiveExpr (use [leafValue]) leaf).Clean (Function.update T leafValue .bound) := by
      refine mapPrimitiveExpr_clean (fun S => by simp) (by simp) ?_ leaf
      rw [Function.update_of_ne (by simp), htemps.mantissa]
    simp only [use_cons, use_nil] at hvalue
    simp [mappedPush, haccess, hclosed T, htemps.leafValue, hbuf, hvalue]

theorem decimalLeaf_ready (hclosed : ctx.access.Closed) (precision scale : Nat) (kind : LeafArmKind) :
    (decimalLeaf ctx precision scale kind).Ready ctx [primitiveBuf ctx.idx] [] := by
  refine bufferArm_ready (mappedPush_closed hclosed _ kind) (fun T haccess htemps hbuf => ?_) (fun S => by simp)
    fun T hbuf hca _ => ?_
  · exact mappedPush_clean hclosed haccess htemps hbuf _ kind
  · simp [hbuf, hca]

theorem mappedCastLeaf_ready (hclosed : ctx.access.Closed) (leaf : ScalarTransform) (kind : LeafArmKind) :
    (mappedCastLeaf ctx leaf kind).Ready ctx [primitiveBuf ctx.idx] [] := by
  refine bufferArm_ready (mappedPush_closed hclosed _ kind) (fun T haccess htemps hbuf => ?_) (fun S => by simp)
    fun T hbuf _ hs => ?_
  · exact mappedPush_clean hclosed haccess htemps hbuf _ kind
  · simp [hbuf, hs]

theorem displayInto_clean {scratch : Ident} {value user : TokenStream} {T : Names Ident} (hclosed : value.Closed)
    (hscratch : T scratch = .bound) (hvalue : value.Clean T) (herr : T (plain .fmtErr) = .free) (huser : user.Clean T) :
    (displayInto scratch value user).Clean T := by
  simp [displayInto, hscratch, hvalue, hclosed T, herr, huser]

theorem buildLeaf_ready (hclosed : ctx.access.Closed) (leaf : PrimitiveLeaf) (kind : LeafArmKind) :
    ∃ own, (buildLeaf ctx leaf kind).Ready ctx own [] := by
  have hplain : ∀ kind, ∃ own, (viewLeaf ctx .done (use [primitiveBuf ctx.idx] ++ ctx.access) ctx.access
      (use [primitiveBuf ctx.idx, leafValue]) kind).Ready ctx own [] :=
    viewLeaf_ready .none (fun S => by simp [hclosed S]) hclosed (fun T haccess _ hbuf _ => by simp [haccess, hbuf])
      (fun T haccess _ => haccess) fun T hvalue _ hbuf _ => by simp [hvalue, hbuf]
  cases leaf with
  | numeric kind' => exact numericLeaf_ready hclosed kind
  | string => exact hplain kind
  | bool => exact boolLeaf_ready hclosed kind
  | binary => exact hplain kind
  | dateTime unit => exact ⟨_, mappedCastLeaf_ready hclosed _ kind⟩
  | naiveDateTime unit => exact ⟨_, mappedCastLeaf_ready hclosed _ kind⟩
  | naiveDate => exact ⟨_, mappedCastLeaf_ready hclosed _ kind⟩
  | naiveTime => exact ⟨_, mappedCastLeaf_ready hclosed _ kind⟩
  | duration unit source => exact ⟨_, mappedCastLeaf_ready hclosed _ kind⟩
  | decimal precision scale => exact ⟨_, decimalLeaf_ready hclosed precision scale kind⟩
  | asString =>
    have hvalue : ∀ T : Names Ident, T leafValue = .bound → (use [leafValue]).Clean T := fun T h => by simp [h]
    refine viewLeaf_ready .str (fun _ => rfl) hclosed (fun T haccess htemps hbuf hscratch => ?_) (fun T haccess _ => haccess)
      (fun T hleaf herr hbuf hscratch => ?_) kind
    · refine (clean_block ..).mpr (displayInto_clean hclosed (hscratch _ (by simp)) haccess htemps.fmtErr ?_)
      simp [hbuf, hscratch]
    · refine displayInto_clean (fun S => by simp) (hscratch _ (by simp)) (hvalue T hleaf) herr ?_
      simp [hbuf, hscratch]
  | asStr base =>
    refine viewLeaf_ready .none (fun S => by simp [stringyValueExpr, hclosed S]) (fun S => by simp [stringyValueExpr, hclosed S])
      (fun T haccess _ hbuf _ => ?_) (fun T haccess htemps => ?_) (fun T hleaf _ hbuf _ => by simp [hleaf, hbuf]) kind
    · simp [stringyValueExpr, haccess, hbuf]
    · simp [stringyValueExpr, haccess, hclosed T, htemps.leafValue]

theorem wrapOptionAccessChainAsStr_ready (hclosed : ctx.access.Closed) (access : AccessChain) :
    (wrapOptionAccessChainAsStr ctx access).Ready ctx [primitiveBuf ctx.idx] [] := by
  obtain ⟨hexpr, hclean⟩ := wraps_accessChainToRef ctx.access access hclosed
  refine bufferArm_ready (fun S => ?_) (fun T haccess htemps hbuf => ?_) (fun S => by simp) fun T hbuf _ _ => ?_
  · simp [stringyValueExpr, hexpr S]
  · simp [stringyValueExpr, hclean T htemps.param haccess, hexpr T, htemps.leafValue, hbuf]
  · simp [hbuf]

/-- A collapsed chain is bound to the column's own local before the leaf's push. -/
theorem wrapOptionAccessChainPrimitive_ready (hclosed : ctx.access.Closed) (leaf : PrimitiveLeaf) (access : AccessChain) :
    ∃ own locals, (wrapOptionAccessChainPrimitive ctx leaf access).Ready ctx own locals := by
  have hlocal : ∀ leaf, ∃ own locals, LeafArm.Ready
      { buildLeaf { ctx with access := use [Idents.multiOptionLocal ctx.idx] } leaf (.option .refRef) with
        push := letIn (Idents.multiOptionLocal ctx.idx) (accessChainToOptionRef ctx.access access) ++
          (buildLeaf { ctx with access := use [Idents.multiOptionLocal ctx.idx] } leaf (.option .refRef)).push } ctx own locals := by
    intro leaf
    obtain ⟨own, h⟩ := @buildLeaf_ready { ctx with access := use [Idents.multiOptionLocal ctx.idx] } (fun S => by simp) leaf
      (.option .refRef)
    obtain ⟨hexpr, hclean⟩ := wraps_accessChainToOptionRef ctx.access access hclosed
    refine ⟨own, [Idents.multiOptionLocal ctx.idx],
      { names := h.names
        decls := h.decls
        declares := h.declares
        localNames := by simp
        pushDeclares := (letIn_declares _ hexpr).append h.pushDeclares
        push := fun T haccess htemps hfree hown => ?_
        seriesClosed := h.seriesClosed
        series := h.series }⟩
    have hbind : (letIn (Idents.multiOptionLocal ctx.idx) (accessChainToOptionRef ctx.access access)).Clean T := by
      simp [hclean T htemps.param haccess, hexpr T, hfree]
    refine Code.clean_append.mpr ⟨hbind, ?_⟩
    rw [exit_letIn, hexpr T]
    refine h.push _ (by simp) (htemps.update (by simp) _) (by simp) fun i hi => ?_
    have hfamily := (h.names i hi).1
    rw [Function.update_of_ne (by rintro rfl; simp at hfamily), hown i hi]
  cases leaf with
  | asStr base => exact ⟨_, _, wrapOptionAccessChainAsStr_ready hclosed access⟩
  | _ => exact hlocal _

end

/-! ## Leaves below `Vec` layers -/

/-- The names leaves are collected under. -/
def storageFamilies : List Family :=
  [.vecFlat, .vecViewBuf, .boolValues, .boolValidity, .vecLeafIdx, .strScratch, .nestedFlat, .nestedPositions]

/-- The parts of a leaf: its storage, the push of an element and what is made of the storage. -/
structure LeafPieces.Ready (p : LeafPieces) (idx : Nat) (own : List Ident) : Prop where
  names : ∀ i ∈ own, i.family ∈ storageFamilies ∧ InBlock idx i
  storage : ∀ S : Names Ident, S totalLeaves = .bound → S bitmapBuilder = .free → (∀ i ∈ own, S i = .free) → p.storage.Clean S
  declares : p.storage.Declares own
  pushClosed : p.push.Closed
  push : ∀ T : Names Ident, T leafValue = .bound → T (plain .mantissa) = .free → T (plain .fmtErr) = .free →
    (∀ i ∈ own, T i = .bound) → p.push.Clean T
  leafArrDeclares : p.leafArr.Declares [Idents.leafArr]
  leafArr : ∀ T : Names Ident, (∀ i ∈ own, T i = .bound) → T Idents.leafArr = .free → p.leafArr.Clean T

/-- What a value expression reads: the leaf value under the binder it is given, and the scratch. -/
structure ValueExpr (extra : List Ident) (valueExpr : Binder Ident → TokenStream) : Prop where
  closed : ∀ b, (valueExpr b).Closed
  clean : ∀ (b : Binder Ident) (T : Names Ident), b.ident = leafValue → T leafValue = b.status → T (plain .mantissa) = .free →
    T (plain .fmtErr) = .free → (∀ i ∈ extra, T i = .bound) → (valueExpr b).Clean T

section

variable {idx : Nat} {extraDecls : TokenStream} {extra : List Ident} {valueExpr : Binder Ident → TokenStream}

/-- The value past the match that binds it again. -/
theorem ValueExpr.some (hv : ValueExpr extra valueExpr) {T : Names Ident} (hextra : ∀ i ∈ extra, i ≠ leafValue)
    (hmantissa : T (plain .mantissa) = .free) (herr : T (plain .fmtErr) = .free) (hbound : ∀ i ∈ extra, T i = .bound) :
    (valueExpr (.again leafValue)).Clean (Function.update T leafValue .rebound) := by
  refine hv.clean _ _ rfl (Function.update_self ..) ?_ ?_ fun i hi => ?_
  · rw [Function.update_of_ne (by simp), hmantissa]
  · rw [Function.update_of_ne (by simp), herr]
  · rw [Function.update_of_ne (hextra i hi), hbound i hi]

theorem numericLeafPieces_ready (idx : Nat) (hv : ValueExpr [] valueExpr) (hasInnerOption : Bool) :
    ∃ own, vecFlat ∈ own ∧ (numericLeafPieces valueExpr hasInnerOption (use [totalLeaves])).Ready idx own := by
  cases hasInnerOption with
  | false =>
    exact ⟨[vecFlat], by simp,
      { names := by simp [storageFamilies, InBlock]
        storage := fun S htotal _ hfree => by simp [numericLeafPieces, htotal, hfree]
        declares := letIn_declares _ fun S => by simp
        pushClosed := fun S => by simp [numericLeafPieces, hv.closed _ S]
        push := fun T hvalue hmantissa herr hown => by
          simp [numericLeafPieces, hown, hv.clean (.own leafValue) T rfl hvalue hmantissa herr (by simp)]
        leafArrDeclares := letIn_declares _ fun S => by simp
        leafArr := fun T hown hfree => by simp [numericLeafPieces, hown, hfree] }⟩
  | true =>
    exact ⟨[vecFlat, boolValidity], by simp,
      { names := by simp [storageFamilies, InBlock]
        storage := fun S htotal hbuilder hfree => by
          simp [numericLeafPieces, mbDeclFilled, htotal, hbuilder, hfree]
        declares := (letIn_declares _ fun S => by simp).append (mbDeclFilled_declares _ _)
        pushClosed := fun S => by simp [numericLeafPieces]
        push := fun T hvalue hmantissa herr hown => by
          simp [numericLeafPieces, hvalue, hown, hv.some (by simp) hmantissa herr (by simp)]
        leafArrDeclares := letIn_declares _ fun S => by simp
        leafArr := fun T hown hfree => by simp [numericLeafPieces, hown, hfree] }⟩

theorem viewLeafPieces_ready (hextra : Scratch idx extraDecls extra) (hv : ValueExpr extra valueExpr)
    (hasInnerOption : Bool) :
    ∃ own, vecViewBuf ∈ own ∧ (viewLeafPieces valueExpr extraDecls hasInnerOption (use [totalLeaves])).Ready idx own := by
  cases hasInnerOption with
  | false =>
    exact ⟨extra ++ [vecViewBuf], by simp,
      { names := by cases hextra <;> simp [storageFamilies, InBlock]
        storage := fun S htotal _ hfree => by cases hextra <;> simp [viewLeafPieces, htotal, hfree]
        declares := hextra.declares.append (letIn_declares _ fun S => by simp)
        pushClosed := fun S => by simp [viewLeafPieces]
        push := fun T hvalue hmantissa herr hown => by
          have hvalueExpr := hv.clean (.own leafValue) T rfl hvalue hmantissa herr fun i hi => hown i (by simp [hi])
          simp [viewLeafPieces, hown, hvalueExpr]
        leafArrDeclares := letIn_declares _ fun S => by simp
        leafArr := fun T hown hfree => by simp [viewLeafPieces, hown, hfree] }⟩
  | true =>
    exact ⟨extra ++ [vecViewBuf] ++ [boolValidity] ++ [vecLeafIdx], by simp,
      { names := by cases hextra <;> simp [storageFamilies, InBlock]
        storage := fun S htotal hbuilder hfree => by
          cases hextra <;> simp [viewLeafPieces, mbDeclFilled, leafIdxDecl, htotal, hbuilder, hfree]
        declares := ((hextra.declares.append (letIn_declares _ fun S => by simp)).append (mbDeclFilled_declares _ _)).append
          (letIn_declares _ fun _ => rfl)
        pushClosed := fun S => by simp [viewLeafPieces]
        push := fun T hvalue hmantissa herr hown => by
          have hvalueExpr := hv.some (T := T) (by cases hextra <;> simp) hmantissa herr fun i hi => hown i (by simp [hi])
          simp [viewLeafPieces, hvalue, hown, hvalueExpr]
        leafArrDeclares := letIn_declares _ fun S => by simp
        leafArr := fun T hown hfree => by simp [viewLeafPieces, hown, hfree] }⟩

theorem boolLeafPieces_ready (idx : Nat) (hasInnerOption : Bool) :
    ∃ own, vecLeafIdx ∈ own ∧ (buildVecLeafPieces .bool hasInnerOption (use [totalLeaves])).Ready idx own := by
  cases hasInnerOption with
  | false =>
    exact ⟨[boolValues, vecLeafIdx], by simp,
      { names := by simp [storageFamilies, InBlock]
        storage := fun S htotal hbuilder hfree => by
          simp [buildVecLeafPieces, boolBareLeafPieces, mbDeclFilled, leafIdxDecl, htotal, hbuilder, hfree]
        declares := (mbDeclFilled_declares _ _).append (letIn_declares _ fun _ => rfl)
        pushClosed := fun S => by simp [buildVecLeafPieces, boolBareLeafPieces]
        push := fun T hvalue _ _ hown => by simp [buildVecLeafPieces, boolBareLeafPieces, hvalue, hown]
        leafArrDeclares := letIn_declares _ fun S => by simp
        leafArr := fun T hown hfree => by simp [buildVecLeafPieces, boolBareLeafPieces, hown, hfree] }⟩
  | true =>
    exact ⟨[boolValues, boolValidity, vecLeafIdx], by simp,
      { names := by simp [storageFamilies, InBlock]
        storage := fun S htotal hbuilder hfree => by
          simp [buildVecLeafPieces, boolInnerOptionLeafPieces, mbDeclFilled, leafIdxDecl, htotal, hbuilder, hfree]
        declares := ((mbDeclFilled_declares _ _).append (mbDeclFilled_declares _ _)).append (letIn_declares _ fun _ => rfl)
        pushClosed := fun S => by simp [buildVecLeafPieces, boolInnerOptionLeafPieces]
        push := fun T hvalue _ _ hown => by simp [buildVecLeafPieces, boolInnerOptionLeafPieces, hvalue, hown]
        leafArrDeclares := letIn_declares _ fun S => by simp
        leafArr := fun T hown hfree => by simp [buildVecLeafPieces, boolInnerOptionLeafPieces, hown, hfree] }⟩

theorem valueExpr_read (extra : List Ident) : ValueExpr extra read where
  closed b S := by simp
  clean b T hb hvalue _ _ _ := by rw [clean_read, hb, hvalue]

theorem valueExpr_mapped (leaf : ScalarTransform) : ValueExpr [] fun v => mapPrimitiveExpr (read v) leaf where
  closed b := mapPrimitiveExpr_closed (fun S => by simp) leaf
  clean b T hb hvalue hmantissa _ _ :=
    mapPrimitiveExpr_clean (fun S => by simp) (by rw [clean_read, hb, hvalue]) hmantissa leaf

theorem valueExpr_display (idx : Nat) : ValueExpr [primitiveStrScratch idx] fun v =>
    block (displayInto (primitiveStrScratch idx) (read v) (use [primitiveStrScratch idx])) where
  closed b S := by simp
  clean b T hb hvalue _ herr hscratch := by
    have hbound : T (primitiveStrScratch idx) = .bound := hscratch _ (by simp)
    refine (clean_block ..).mpr (displayInto_clean (fun S => by simp) hbound ?_ herr (by simp [hbound]))
    rw [clean_read, hb, hvalue]

/-- The leaf of a plan, and the buffer whose length its offsets count. -/
theorem pepForPrimitiveLeaf_ready (leaf : PrimitiveLeaf) (idx : Nat) (shape : VecLayers) :
    ∃ own, (pepForPrimitiveLeaf leaf idx shape).Ready idx own ∧
      ∃ i ∈ own, leafOffsetsPostPush (vecLeafPlan leaf idx) = use [i] := by
  have hnumeric : ∀ valueExpr, ValueExpr [] valueExpr →
      ∃ own, (numericLeafPieces valueExpr shape.hasInnerOption (use [totalLeaves])).Ready idx own ∧
        ∃ i ∈ own, leafOffsetsPostPush (.numeric valueExpr) = use [i] := by
    intro valueExpr hv
    obtain ⟨own, hmem, h⟩ := numericLeafPieces_ready idx hv shape.hasInnerOption
    exact ⟨own, h, vecFlat, hmem, rfl⟩
  have hview : ∀ extraDecls extra valueExpr, Scratch idx extraDecls extra → ValueExpr extra valueExpr →
      ∃ own, (viewLeafPieces valueExpr extraDecls shape.hasInnerOption (use [totalLeaves])).Ready idx own ∧
        ∃ i ∈ own, leafOffsetsPostPush (.stringLike valueExpr extraDecls) = use [i] := by
    intro extraDecls extra valueExpr hextra hv
    obtain ⟨own, hmem, h⟩ := viewLeafPieces_ready hextra hv shape.hasInnerOption
    exact ⟨own, h, vecViewBuf, hmem, rfl⟩
  cases leaf with
  | numeric kind => exact hnumeric read (valueExpr_read [])
  | string => exact hview _ _ _ .none (valueExpr_read [])
  | bool =>
    obtain ⟨own, hmem, h⟩ := boolLeafPieces_ready idx shape.hasInnerOption
    exact ⟨own, h, vecLeafIdx, hmem, rfl⟩
  | binary => exact hview _ _ _ .none (valueExpr_read [])
  | dateTime unit => exact hnumeric _ (valueExpr_mapped _)
  | naiveDateTime unit => exact hnumeric _ (valueExpr_mapped _)
  | naiveDate => exact hnumeric _ (valueExpr_mapped _)
  | naiveTime => exact hnumeric _ (valueExpr_mapped _)
  | duration unit source => exact hnumeric _ (valueExpr_mapped _)
  | decimal precision scale => exact hnumeric _ (valueExpr_mapped _)
  | asString => exact hview _ _ _ .str (valueExpr_display idx)
  | asStr base => exact hview _ _ _ .none (valueExpr_read [])

end

end DfDerive.Scoped
