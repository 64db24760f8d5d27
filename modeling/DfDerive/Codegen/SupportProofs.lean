/-
  DfDerive.Codegen.SupportProofs — the helpers an expansion defines and uses.

  - `mem_buildColumnEmit`: a column names the list helper below `Vec`s, and the nested checks
    for a nested leaf, whichever emitter it takes.
  - `generateCode_helpers`: what is defined is what the impls reach.
-/

import DfDerive.Codegen.Support

namespace DfDerive

/-! ## What the columns name -/

namespace Tokens

theorem shapeAssembleListStack_plain (shape : VecLayers) :
    shapeAssembleListStack plain plain (layerWraps shape) plain = [.assembleHelper] := by
  rw [shapeAssembleListStack, layerWraps, List.foldr_map, List.foldr_fixed' fun _ => rfl]
  rfl

/-- The helpers a column's streams name. -/
def ColumnEmit.tokens : ColumnEmit → Tokens
  | rowWise decls push builders => decls ++ push ++ builders
  | wholeColumn builders => builders

def Encoder.tokens : Encoder → Tokens
  | leaf decls push series => decls ++ push ++ series
  | multi columnar => columnar

theorem pepEmit_plain (shape : VecLayers) : pepEmit pepForPrimitiveLeaf plain shape = [.assembleHelper] :=
  shapeAssembleListStack_plain shape

theorem vecEncoder_tokens (shape : VecLayers) : (vecEncoder plain shape).tokens = [.assembleHelper] := by
  rw [vecEncoder, pepEmit_plain]
  rfl

/-- A list column assembles its list once, on the fast path for bare `bool` too. -/
theorem tryBuildVecEncoder_tokens (leaf : PrimitiveLeaf) (shape : VecLayers) :
    (tryBuildVecEncoder leaf plain shape).tokens = [.assembleHelper] := by
  unfold tryBuildVecEncoder
  split
  · split
    · exact vecEncoder_tokens shape
    · unfold vecEncoderBoolBare
      split
      · rfl
      · exact vecEncoder_tokens shape
  · exact vecEncoder_tokens shape

theorem buildEncoder_tokens (leaf : PrimitiveLeaf) (wrapper : WrapperShape) :
    (buildEncoderWithOptionReceiver leaf wrapper plain).tokens = if 0 < wrapper.vecDepth then [.assembleHelper] else [] := by
  cases wrapper with
  | vec layers =>
    have hpos : 0 < (WrapperShape.vec layers).vecDepth := layers.layers.len_pos
    rw [if_pos hpos]
    exact tryBuildVecEncoder_tokens leaf layers
  | leaf s =>
    cases s with
    | bare => rfl
    | optional n access =>
      by_cases hsingle : n = 1 ∧ access.isSinglePlainOption
      · simp only [buildEncoderWithOptionReceiver, if_pos hsingle]
        rfl
      · simp only [buildEncoderWithOptionReceiver, if_neg hsingle]
        rfl

def NestedWrapper.isList : NestedWrapper → Bool
  | none => false
  | list _ => true

theorem wrapNestedColumn_list (shape : VecLayers) (innerCol : Tokens) :
    wrapNestedColumn (.list shape) innerCol = innerCol ++ [.assembleHelper] :=
  congrArg (innerCol ++ ·) (shapeAssembleListStack_plain shape)

/-- A nested column checks the frame and its columns, and assembles a list below `Vec`s. -/
theorem mem_materializeNestedColumns (positions : Bool) (wrapper : NestedWrapper) (h : Helper) :
    h ∈ materializeNestedColumns positions wrapper ↔ h = .validateNestedFrame ∨ h = .validateNestedColumnDtype ∨
      (h = .assembleHelper ∧ wrapper.isList = true) := by
  cases wrapper with
  | none => cases positions <;> cases h <;> decide
  | list shape =>
    simp only [materializeNestedColumns, wrapNestedColumn_list]
    cases positions <;> cases h <;> simp [nestedMaterializeDispatch, consumeNestedColumns, plain, nestedDfDecl, nestedTakeDecl,
      buildInnerColDirect, buildInnerColTake, buildInnerColEmpty, buildInnerColAllAbsent, NestedWrapper.isList]

theorem mem_buildNestedEncoder (wrapper : WrapperShape) (h : Helper) :
    h ∈ buildNestedEncoder wrapper plain ↔ h = .validateNestedFrame ∨ h = .validateNestedColumnDtype ∨
      (h = .assembleHelper ∧ 0 < wrapper.vecDepth) := by
  have hnested : buildNestedEncoder wrapper plain = ctbMaterialize wrapper := rfl
  rw [hnested]
  cases wrapper with
  | vec shape =>
    have hpos : 0 < (WrapperShape.vec shape).vecDepth := shape.layers.len_pos
    rw [ctbMaterialize, mem_materializeNestedColumns]
    simp only [NestedWrapper.isList, hpos]
  | leaf s =>
    cases s with
    | bare =>
      rw [ctbMaterialize, mem_materializeNestedColumns]
      simp [NestedWrapper.isList, WrapperShape.vecDepth]
    | optional n access =>
      rw [ctbMaterialize, mem_materializeNestedColumns]
      simp [NestedWrapper.isList, WrapperShape.vecDepth]

theorem mem_standardEmit (leafSpec : TerminalLeafSpec) (wrapper : WrapperShape) (h : Helper) :
    h ∈ (buildProjectedStandardEmit leafSpec wrapper).tokens ↔ (h = .assembleHelper ∧ 0 < wrapper.vecDepth) ∨
      ((h = .validateNestedFrame ∨ h = .validateNestedColumnDtype) ∧ leafSpec.route.isNested = true) := by
  unfold buildProjectedStandardEmit
  cases leafSpec.route with
  | nested nested =>
    show h ∈ buildNestedEncoder wrapper plain ↔ _
    rw [mem_buildNestedEncoder]
    simp only [TerminalLeafRoute.isNested, and_true]
    tauto
  | primitive leaf =>
    have hencoder := buildEncoder_tokens leaf wrapper
    have htokens : ∀ e : Encoder, (match e with
        | .leaf decls push series => ColumnEmit.wholeColumn (decls ++ push ++ series)
        | .multi columnar => .wholeColumn columnar).tokens = e.tokens := by
      intro e
      cases e <;> rfl
    show h ∈ ColumnEmit.tokens (match buildEncoderWithOptionReceiver leaf wrapper plain with
        | .leaf decls push series => ColumnEmit.wholeColumn (decls ++ push ++ series)
        | .multi columnar => .wholeColumn columnar) ↔ _
    rw [htokens, hencoder]
    by_cases hpos : 0 < wrapper.vecDepth
    · simp [hpos, TerminalLeafRoute.isNested]
    · simp [hpos, TerminalLeafRoute.isNested]

/-- A column's emitter names the list helper below `Vec`s, and the nested checks for a nested
    leaf. -/
theorem mem_buildColumnEmit (c : ColumnIR) (h : Helper) :
    h ∈ (buildColumnEmit c).tokens ↔ (h = .assembleHelper ∧ 0 < c.vecDepth) ∨
      ((h = .validateNestedFrame ∨ h = .validateNestedColumnDtype) ∧ c.leafSpec.route.isNested = true) := by
  cases c with
  | field column =>
    have hsame : (buildFieldColumnEmit column).tokens =
        (buildProjectedStandardEmit column.leafSpec column.wrapperShape).tokens := by
      unfold buildFieldColumnEmit buildProjectedStandardEmit
      cases column.leafSpec.route with
      | nested nested => rfl
      | primitive leaf =>
        show ColumnEmit.tokens (match buildEncoderWithOptionReceiver leaf column.wrapperShape columnAccess with
          | .leaf decls push series => ColumnEmit.rowWise decls push series
          | .multi columnar => .wholeColumn columnar) = _
        cases hencoder : buildEncoderWithOptionReceiver leaf column.wrapperShape columnAccess with
        | leaf decls push series => simp only [hencoder]; rfl
        | multi columnar => simp only [hencoder]
    rw [buildColumnEmit, hsame]
    exact mem_standardEmit _ _ h
  | tupleStatic column => exact mem_standardEmit _ _ h
  | tupleParentOption column => exact mem_standardEmit _ _ h
  | tupleParentVec column =>
    have hpos : 0 < column.wrapperShape.depth := column.wrapperShape.layers.len_pos
    show h ∈ (buildParentVecProjectionEmit column).tokens ↔ (h = .assembleHelper ∧ 0 < column.wrapperShape.depth) ∨
      (_ ∧ column.leafSpec.route.isNested = true)
    unfold buildParentVecProjectionEmit
    cases column.leafSpec.route with
    | nested nested =>
      show h ∈ materializeNestedColumns column.wrapperShape.hasInnerOption (.list column.wrapperShape) ↔ _
      rw [mem_materializeNestedColumns]
      simp only [NestedWrapper.isList, TerminalLeafRoute.isNested, hpos]
      tauto
    | primitive leaf =>
      have htokens : buildProjectedVecPrimitive column.wrapperShape plain = [.assembleHelper] := by
        rw [buildProjectedVecPrimitive, pepEmit_plain]
        rfl
      show h ∈ buildProjectedVecPrimitive column.wrapperShape plain ↔ _
      rw [htokens]
      simp [hpos, TerminalLeafRoute.isNested]

def ColumnarParts.tokens (parts : ColumnarParts) : Tokens := parts.decls ++ parts.pushes ++ parts.builders

theorem mem_extend (parts : ColumnarParts) (emit : ColumnEmit) (h : Helper) :
    h ∈ (parts.extend emit).tokens ↔ h ∈ parts.tokens ∨ h ∈ emit.tokens := by
  cases emit with
  | rowWise decls push builders =>
    simp only [ColumnarParts.extend, ColumnarParts.tokens, ColumnEmit.tokens, List.mem_append]
    tauto
  | wholeColumn builders =>
    simp only [ColumnarParts.extend, ColumnarParts.tokens, ColumnEmit.tokens, List.mem_append]
    tauto

/-- The columns' streams, wherever they go in the method. -/
theorem mem_prepareColumnarParts (ir : StructIR) (h : Helper) :
    h ∈ (prepareColumnarParts ir).tokens ↔ ∃ c ∈ ir.columns, h ∈ (buildColumnEmit c).tokens := by
  have hloop : ∀ (columns : List ColumnIR) (parts : ColumnarParts),
      h ∈ (columns.foldl (fun parts column => parts.extend (buildColumnEmit column)) parts).tokens ↔
        h ∈ parts.tokens ∨ ∃ c ∈ columns, h ∈ (buildColumnEmit c).tokens := by
    intro columns
    induction columns with
    | nil => intro parts; simp
    | cons c columns ih =>
      intro parts
      rw [List.foldl_cons, ih, mem_extend, or_assoc]
      simp only [List.mem_cons, exists_eq_or_imp]
  rw [prepareColumnarParts, hloop]
  simp [ColumnarParts.tokens]

theorem mem_columnarMethodBody (ir : StructIR) (h : Helper) : h ∈ columnarMethodBody ir ↔
    (∃ c ∈ ir.columns, h ∈ (buildColumnEmit c).tokens) ∨ h ∈ uniqueNameValidation ir := by
  have hbody : columnarMethodBody ir = (prepareColumnarParts ir).tokens ++ uniqueNameValidation ir := List.append_nil _
  rw [hbody, List.mem_append, mem_prepareColumnarParts]

end Tokens

/-! ## What is defined and what is used -/

/-- When a helper is emitted. -/
def Needs (ir : StructIR) : Helper → Bool
  | .listAssembly | .assembleHelper => needsListAssembly ir
  | .validateNestedFrame | .validateNestedColumnDtype => needsNestedValidation ir
  | .validateUniqueColumnNames => needsUniqueNameValidation ir

theorem mem_defined (ir : StructIR) (h : Helper) : h ∈ (generateCode ir).defined ↔ Needs ir h = true := by
  show h ∈ (generateSupport ir).map Prod.fst ↔ _
  unfold generateSupport
  by_cases hl : needsListAssembly ir <;> by_cases hn : needsNestedValidation ir <;>
    by_cases hu : needsUniqueNameValidation ir <;> cases h <;> simp [Needs, hl, hn, hu]

theorem defined_nodup (ir : StructIR) : (generateCode ir).defined.Nodup := by
  show ((generateSupport ir).map Prod.fst).Nodup
  unfold generateSupport
  by_cases hl : needsListAssembly ir <;> by_cases hn : needsNestedValidation ir <;>
    by_cases hu : needsUniqueNameValidation ir <;> simp [hl, hn, hu]

theorem mem_uniqueNameValidation (ir : StructIR) (h : Helper) :
    h ∈ Tokens.uniqueNameValidation ir ↔ h = .validateUniqueColumnNames ∧ needsUniqueNameValidation ir = true := by
  unfold Tokens.uniqueNameValidation
  split
  · rename_i hneeds
    simp [hneeds]
  · rename_i hneeds
    simp [hneeds, Tokens.plain]

/-- What the generated methods name. -/
theorem mem_impls (ir : StructIR) (h : Helper) :
    (∃ body ∈ (generateCode ir).impls, h ∈ body) ↔ h ≠ .listAssembly ∧ Needs ir h = true := by
  have hcolumnar : h ∈ Tokens.columnarMethodBody ir ↔ h ≠ .listAssembly ∧ Needs ir h = true := by
    rw [Tokens.mem_columnarMethodBody, mem_uniqueNameValidation]
    simp only [Tokens.mem_buildColumnEmit]
    cases h <;> simp [Needs, needsListAssembly, needsNestedValidation]
  have htrait : ∀ body ∈ Tokens.generateTraitImpl ir, h ∈ body → h ∈ Tokens.uniqueNameValidation ir := by
    intro body hbody hmem
    unfold Tokens.generateTraitImpl at hbody
    have hschema : ∀ cs : List ColumnIR, cs.flatMap Tokens.buildSchemaEntries = [] := by
      intro cs
      exact List.flatMap_eq_nil_iff.mpr fun _ _ => rfl
    have hempty : ∀ cs : List ColumnIR, cs.flatMap Tokens.buildEmptySeries = [] := by
      intro cs
      exact List.flatMap_eq_nil_iff.mpr fun _ _ => rfl
    rw [hschema, hempty] at hbody
    split at hbody <;> simp [Tokens.plain] at hbody <;> grind
  constructor
  · rintro ⟨body, hbody, hmem⟩
    rw [← hcolumnar]
    rcases List.mem_append.mp hbody with hbody | hbody
    · exact (Tokens.mem_columnarMethodBody ir h).mpr (Or.inr (htrait body hbody hmem))
    · rcases List.mem_cons.mp hbody with rfl | hbody
      · exact hmem
      · rw [List.mem_singleton] at hbody
        exact hbody ▸ hmem
  · intro hneeds
    exact ⟨_, List.mem_append_right _ List.mem_cons_self, hcolumnar.mpr hneeds⟩

/-- A helper is defined, once, exactly when the generated methods use it, directly or through
    another helper; no stream of the expansion names a helper that is not defined. -/
theorem generateCode_helpers (ir : StructIR) :
    (∀ h, h ∈ (generateCode ir).defined ↔ (generateCode ir).Uses h) ∧ (generateCode ir).defined.Nodup ∧
    (∀ body, (body ∈ (generateCode ir).impls ∨ ∃ g, (g, body) ∈ (generateCode ir).support) →
      ∀ h ∈ body, h ∈ (generateCode ir).defined) := by
  have hsupport : ∀ g body, (g, body) ∈ (generateCode ir).support → ∀ h ∈ body, g = .assembleHelper ∧ h = .listAssembly := by
    intro g body hbody h hmem
    have hbody : (g, body) ∈ generateSupport ir := hbody
    unfold generateSupport at hbody
    by_cases hl : needsListAssembly ir <;> by_cases hn : needsNestedValidation ir <;>
      by_cases hu : needsUniqueNameValidation ir <;> simp [hl, hn, hu, Tokens.plain] at hbody <;> grind
  have hnamed : ∀ body, (body ∈ (generateCode ir).impls ∨ ∃ g, (g, body) ∈ (generateCode ir).support) →
      ∀ h ∈ body, h ∈ (generateCode ir).defined := by
    rintro body (hbody | ⟨g, hbody⟩) h hmem
    · rw [mem_defined]
      exact ((mem_impls ir h).mp ⟨body, hbody, hmem⟩).2
    · obtain ⟨rfl, rfl⟩ := hsupport g body hbody h hmem
      have hdefined : Helper.assembleHelper ∈ (generateCode ir).defined := List.mem_map_of_mem hbody
      rw [mem_defined] at hdefined ⊢
      exact hdefined
  refine ⟨fun h => ⟨fun hdefined => ?_, fun huses => ?_⟩, defined_nodup ir, hnamed⟩
  · have hneeds := (mem_defined ir h).mp hdefined
    by_cases hassembly : h = .listAssembly
    · -- only the list helper's body names the list type
      subst hassembly
      have hneeds : needsListAssembly ir = true := hneeds
      obtain ⟨body, hbody, hmem⟩ := (mem_impls ir .assembleHelper).mpr ⟨nofun, hneeds⟩
      refine .helper (.impl hbody hmem) (b := [.listAssembly]) ?_ List.mem_cons_self
      show _ ∈ generateSupport ir
      unfold generateSupport
      rw [if_pos hneeds]
      simp
    · obtain ⟨body, hbody, hmem⟩ := (mem_impls ir h).mpr ⟨hassembly, hneeds⟩
      exact .impl hbody hmem
  · cases huses with
    | impl hbody hmem => exact hnamed _ (Or.inl hbody) h hmem
    | helper _ hbody hmem => exact hnamed _ (Or.inr ⟨_, hbody⟩) h hmem

end DfDerive
