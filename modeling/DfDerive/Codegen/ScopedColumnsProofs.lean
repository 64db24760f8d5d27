/-
  DfDerive.Codegen.ScopedColumnsProofs — the columns read the names they bind.

  A column declares names of its own index ahead of the row loop, leaves at most its own
  local in the loop, and builds its series where both are as it left them, or where a block
  of its own starts (`ColumnEmit.Ready`, `buildColumnEmit_ready`).
-/

import DfDerive.Codegen.ScopedNestedProofs

namespace DfDerive.Scoped

open Lib Idents

/-! ## Encoders -/

/-- What an encoder promises, by its kind. -/
def Encoder.Ready (access : TokenStream) (idx vecDepth : Nat) : Encoder → Prop
  | .leaf arm => ∃ own locals, arm.Ready ⟨access, idx⟩ own locals
  | .multi columnar => 0 < vecDepth ∧ columnar.Closed ∧
    ∀ S : Names Ident, Ambient idx S → S (helper .assembleHelper) = .bound → columnar.Clean S

theorem tryBuildVecEncoder_closed (ctx : LeafCtx) (leaf : PrimitiveLeaf) (shape : VecLayers) :
    (tryBuildVecEncoder ctx leaf shape).Closed := by
  intro S
  unfold tryBuildVecEncoder
  split
  · split
    · rfl
    · unfold vecEncoderBoolBare
      split <;> rfl
  · rfl

theorem buildEncoder_ready {access : TokenStream} (haccess : RowAccess access) (idx : Nat) (leaf : PrimitiveLeaf)
    {wrapper : WrapperShape} (hagree : ∀ shape, wrapper = .vec shape → NestedAgrees shape) :
    (buildEncoder ⟨access, idx⟩ leaf wrapper).Ready access idx wrapper.vecDepth := by
  unfold buildEncoder
  split
  · obtain ⟨own, h⟩ := @buildLeaf_ready ⟨access, idx⟩ haccess.closed leaf .bare
    exact ⟨own, [], h⟩
  · split
    · obtain ⟨own, h⟩ := @buildLeaf_ready ⟨access, idx⟩ haccess.closed leaf (.option .ref)
      exact ⟨own, [], h⟩
    · exact @wrapOptionAccessChainPrimitive_ready ⟨access, idx⟩ haccess.closed leaf _
  · rename_i shape
    exact ⟨shape.layers.len_pos, tryBuildVecEncoder_closed _ _ _, fun S ha hhelper =>
      tryBuildVecEncoder_clean ha hhelper haccess leaf (hagree shape rfl).layers⟩

theorem buildNestedEncoder_closed (wrapper : WrapperShape) (access : TokenStream) (idx : Nat) :
    (buildNestedEncoder wrapper access idx).Closed := by
  intro S
  unfold buildNestedEncoder
  dsimp only
  split <;> rfl

/-! ## Columns -/

/-- Where a column's series is built: as a block starts, but with its own names bound. -/
structure BuilderScope (idx : Nat) (own : List Ident) (T : Names Ident) : Prop where
  items : T (plain .items) = .bound
  columns : T columns = .bound
  bound : ∀ i ∈ own, T i = .bound
  free : ∀ i, InBlock idx i → i ∉ own → T i = .free

theorem BuilderScope.ambient {idx : Nat} {T : Names Ident} (h : BuilderScope idx [] T) : Ambient idx T :=
  ⟨h.items, h.columns, fun i hi => h.free i hi List.not_mem_nil⟩

/-- The names a series is built under are free there. -/
theorem BuilderScope.temp {idx : Nat} {own : List Ident} {T : Names Ident} (h : BuilderScope idx own T)
    (hown : ∀ i ∈ own, i.family ∈ rowFamilies ∧ i.indices = [idx]) {i : Ident}
    (hi : i ∈ [plain .arr, plain .ca, plain .s]) : T i = .free := by
  have htemp : ∀ j ∈ [plain .arr, plain .ca, plain .s], InBlock idx j ∧ j.family ∉ rowFamilies := by simp [InBlock]
  obtain ⟨hblock, hrow⟩ := htemp i hi
  exact h.free i hblock fun hmem => hrow (hown i hmem).1

/-- The helpers a column's block names. -/
structure ColumnHelpers (vecDepth : Nat) (isNested : Bool) (T : Names Ident) : Prop where
  list : 0 < vecDepth → T (helper .assembleHelper) = .bound
  nested : isNested = true → NestedHelpers T

/-- A column's parts: the names of its own that it declares, and its local in the row loop. -/
structure ColumnEmit.Ready (emit : ColumnEmit) (idx : Nat) (helpers : Names Ident → Prop) (own locals : List Ident) : Prop where
  names : ∀ i ∈ own, i.family ∈ rowFamilies ∧ i.indices = [idx]
  decls : ∀ S : Names Ident, S (plain .items) = .bound → S bitmapBuilder = .free → (∀ i ∈ own, S i = .free) → emit.decls.Clean S
  declares : emit.decls.Declares own
  localNames : ∀ i ∈ locals, i = Idents.multiOptionLocal idx
  pushDeclares : (emit.push?.getD .done).Declares locals
  push : ∀ T : Names Ident, T populatorIter = .bound → Temps T → (∀ i ∈ locals, T i = .free) → (∀ i ∈ own, T i = .bound) →
    (emit.push?.getD .done).Clean T
  builderClosed : emit.builder.Closed
  builder : ∀ T, BuilderScope idx own T → helpers T → emit.builder.Clean T

section

variable {idx : Nat} {helpers : Names Ident → Prop}

theorem wholeColumn_ready {builder : TokenStream} (hclosed : builder.Closed)
    (hclean : ∀ S, Ambient idx S → helpers S → builder.Clean S) :
    (ColumnEmit.wholeColumn builder).Ready idx helpers [] [] where
  names := by simp
  decls _ _ _ _ := trivial
  declares := Code.Closed.declares fun _ => rfl
  localNames := by simp
  pushDeclares := Code.Closed.declares fun _ => rfl
  push _ _ _ _ _ := trivial
  builderClosed := hclosed
  builder T hT hh := hclean T hT.ambient hh

theorem buildFieldColumnEmit_ready (column : FieldColumn)
    (hagree : ∀ shape, column.wrapperShape = .vec shape → NestedAgrees shape) :
    ∃ own locals, (buildFieldColumnEmit idx column).Ready idx
      (ColumnHelpers column.wrapperShape.vecDepth column.leafSpec.route.isNested) own locals := by
  have haccess : RowAccess fieldSourceAccess := rowAccess_row
  unfold buildFieldColumnEmit
  split
  · rename_i hroute
    refine ⟨[], [], wholeColumn_ready (buildNestedEncoder_closed _ _ _) fun S ha hh => ?_⟩
    exact buildNestedEncoder_clean ha (hh.nested (by rw [hroute]; rfl)) hh.list hagree haccess
  · rename_i leaf hroute
    have henc := buildEncoder_ready haccess idx leaf hagree
    split
    · rename_i arm harm
      rw [harm] at henc
      obtain ⟨own, locals, h⟩ := henc
      refine ⟨own, locals,
        { names := h.names
          decls := h.decls
          declares := h.declares
          localNames := h.localNames
          pushDeclares := h.pushDeclares
          push := fun T hit htemps hlocals hown => h.push T (by simp [fieldSourceAccess, hit]) htemps hlocals hown
          builderClosed := fun S => rfl
          builder := fun T hT _ => ?_ }⟩
      have hfree : ∀ i ∈ [plain .arr, plain .ca, plain .s], T i = .free := fun i hi => hT.temp h.names hi
      have hseries := h.series T hT.bound (hfree _ (by simp)) (hfree _ (by simp)) (hfree _ (by simp))
      simp [ColumnEmit.builder, hseries, h.seriesClosed T, hfree, hT.columns]
    · rename_i columnar hmulti
      rw [hmulti] at henc
      obtain ⟨hdepth, hclosed, hclean⟩ := henc
      exact ⟨[], [], wholeColumn_ready hclosed fun S ha hh => hclean S ha (hh.list hdepth)⟩

/-- A row-wise leaf in a block of its own. -/
theorem rowBlock_clean {access : TokenStream} (haccess : RowAccess access) {arm : LeafArm} {own locals : List Ident}
    (h : arm.Ready ⟨access, idx⟩ own locals) {S : Names Ident} (ha : Ambient idx S) :
    (block (arm.decls ++ forIn populatorIter items arm.push ++ letIn (vecFieldSeries idx) arm.series ++
      pushNamed (vecFieldSeries idx))).Clean S := by
  have hownFree : ∀ i ∈ own, S i = .free := fun i hi => ha.free i ((inBlock_row (h.names i hi).1).mpr (h.names i hi).2)
  have hdecls := h.decls S ha.items (ha.free bitmapBuilder trivial) hownFree
  have hsame : Same rowFamilies S (arm.decls.exit S) := .ofDeclares h.declares fun i hi => (h.names i hi).1
  have hown : ∀ i ∈ own, arm.decls.exit S i = .bound := fun i hi => by rw [h.declares, Names.bindAll_mem hi]
  generalize hT : arm.decls.exit S = T at hsame hown
  have hfree : ∀ i : Ident, i.family ∉ rowFamilies → InBlock idx i → T i = .free := fun i hi hblock => by
    rw [hsame i hi, ha.free i hblock]
  have hitems : T (plain .items) = .bound := by rw [hsame _ (by simp), ha.items]
  have hfreeRow : ∀ i : Ident, i.family ∉ rowFamilies → InBlock idx i → i ≠ populatorIter →
      Function.update T populatorIter .bound i = .free := fun i hi hblock hne => by
    rw [Function.update_of_ne hne, hfree i hi hblock]
  have hpush : arm.push.Clean (Function.update T populatorIter .bound) := by
    have htemps : Temps T :=
      ⟨hfree _ (by simp) trivial, hfree _ (by simp) trivial, hfree _ (by simp) trivial, hfree _ (by simp) trivial⟩
    refine h.push _ (haccess.clean _ (Function.update_self ..) ?_ ?_) (htemps.update (by simp) _) (fun i hi => ?_) fun i hi => ?_
    · exact hfreeRow _ (by simp) trivial (by simp)
    · exact hfreeRow _ (by simp) trivial (by simp)
    · rw [h.localNames i hi]
      exact hfreeRow _ (by simp) trivial (by simp)
    · have hfamily := (h.names i hi).1
      rw [Function.update_of_ne (by rintro rfl; simp at hfamily), hown i hi]
  have hseries := h.series T hown (hfree _ (by simp) trivial) (hfree _ (by simp) trivial) (hfree _ (by simp) trivial)
  have hloop : (forIn populatorIter items arm.push).Clean T := by
    have hiter : items.exit T = T := by simp [items]
    rw [clean_forIn, hiter]
    exact ⟨by simp [items, hitems], hfree _ (by simp) trivial, hpush⟩
  have hloopExit : (forIn populatorIter items arm.push).exit T = T := by simp [items]
  have hnamed : (pushNamed (vecFieldSeries idx)).Clean (Function.update T (vecFieldSeries idx) .bound) := by
    refine pushNamed_clean (Function.update_self ..) ?_ ?_
    · rw [Function.update_of_ne (by simp), hfree fieldNamedSeries (by simp) trivial]
    · rw [Function.update_of_ne (by simp), hsame _ (by simp), ha.columns]
  simp only [clean_block, Code.clean_append, Code.exit_append, hT, hloopExit, clean_letIn, exit_letIn, h.seriesClosed T]
  exact ⟨⟨⟨hdecls, hloop⟩, hseries, hfree _ (by simp) trivial⟩, hnamed⟩

theorem buildProjectedStandardEmit_ready {access : TokenStream} (haccess : RowAccess access) (leafSpec : TerminalLeafSpec)
    {wrapper : WrapperShape} (hagree : ∀ shape, wrapper = .vec shape → NestedAgrees shape) :
    (buildProjectedStandardEmit idx leafSpec wrapper access).Ready idx
      (ColumnHelpers wrapper.vecDepth leafSpec.route.isNested) [] [] := by
  unfold buildProjectedStandardEmit
  split
  · rename_i hroute
    refine wholeColumn_ready (buildNestedEncoder_closed _ _ _) fun S ha hh => ?_
    exact buildNestedEncoder_clean ha (hh.nested (by rw [hroute]; rfl)) hh.list hagree haccess
  · rename_i leaf hroute
    have henc := buildEncoder_ready haccess idx leaf hagree
    split
    · rename_i arm harm
      rw [harm] at henc
      obtain ⟨own, locals, h⟩ := henc
      exact wholeColumn_ready (fun S => rfl) fun S ha _ => rowBlock_clean haccess h ha
    · rename_i columnar hmulti
      rw [hmulti] at henc
      obtain ⟨hdepth, hclosed, hclean⟩ := henc
      exact wholeColumn_ready hclosed fun S ha hh => hclean S ha (hh.list hdepth)

theorem tupleParentOptionAccess_row (column : TupleParentOptionColumn) : RowAccess (tupleParentOptionAccess column) := by
  obtain ⟨hclosed, hclean⟩ := wraps_accessChainToOptionRef fieldSourceAccess column.parentAccess rowAccess_row.closed
  refine ⟨fun S => by simp [tupleParentOptionAccess, hclosed S], fun T hit hparam hproj => ?_⟩
  have hbase := hclean T hparam (rowAccess_row.clean T hit hparam hproj)
  simp [tupleParentOptionAccess, hbase, hclosed T, hproj]

theorem buildParentVecProjectionEmit_ready (column : TupleParentVecColumn) (hagree : NestedAgrees column.wrapperShape) :
    (buildParentVecProjectionEmit idx column).Ready idx
      (ColumnHelpers column.wrapperShape.depth column.leafSpec.route.isNested) [] [] := by
  have hdepth : 0 < column.wrapperShape.depth := column.wrapperShape.layers.len_pos
  unfold buildParentVecProjectionEmit
  split
  · rename_i hroute
    refine wholeColumn_ready (fun S => rfl) fun S ha hh => ?_
    exact emitProjectedVecNested_clean ha (hh.nested (by rw [hroute]; rfl)) (hh.list hdepth) hagree.layers _
  · refine wholeColumn_ready (fun S => rfl) fun S ha hh => ?_
    exact emitProjectedVecPrimitive_clean ha (hh.list hdepth) hagree.layers _ _

/-- Every kind of column, at every index. -/
theorem buildColumnEmit_ready (idx : Nat) (c : ColumnIR) (hagree : ∀ shape, c.shape = .vec shape → NestedAgrees shape) :
    ∃ own locals, (buildColumnEmit idx c).Ready idx (ColumnHelpers c.vecDepth c.leafSpec.route.isNested) own locals := by
  cases c with
  | field column => exact buildFieldColumnEmit_ready column hagree
  | tupleStatic column => exact ⟨[], [], buildProjectedStandardEmit_ready rowAccess_row column.leafSpec hagree⟩
  | tupleParentOption column =>
    exact ⟨[], [], buildProjectedStandardEmit_ready (tupleParentOptionAccess_row column) column.leafSpec hagree⟩
  | tupleParentVec column => exact ⟨[], [], buildParentVecProjectionEmit_ready column (hagree _ rfl)⟩

end

end DfDerive.Scoped
