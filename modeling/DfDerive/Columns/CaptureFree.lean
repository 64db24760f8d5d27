/-
  DfDerive.Columns.CaptureFree — in a generated method every name reads the binder it is meant for.

  The declarations of the columns come first, then the row loop they share, then each
  column's block: `DeclaredUpTo` and `LoopUpTo` say what the columns before an index have
  bound, always names of their own. So every column's code stands where it is clean
  (`columnarMethodBody_clean`), and as no two names are rendered alike, clean code is
  capture free (`walks_captureFree`).
-/

import DfDerive.Codegen.ScopedColumnsProofs
import DfDerive.Codegen.SupportProofs
import DfDerive.Columns.Nullability

namespace DfDerive.Scoped

open Lib Idents

/-! ## The scope of the methods -/

def methodNames (ir : StructIR) : List Ident := plain .items :: (generateCode ir).defined.map helper

/-- What is bound around a method's body. -/
abbrev methodTable (ir : StructIR) : Names Ident := Names.bindAll (fun _ => .free) (methodNames ir)

theorem methodTable_models (ir : StructIR) : (methodTable ir).Models (methodScope ir) := by
  have hscope : methodScope ir = (methodNames ir).map .own := by simp [methodScope, methodNames]
  rw [hscope]
  exact Names.models_own _

section

variable {ir : StructIR} {idx : Nat} {S T : Names Ident}

theorem methodTable_items (ir : StructIR) : methodTable ir (plain .items) = .bound :=
  Names.bindAll_mem (by simp [methodNames])

theorem methodTable_helper {h : Helper} (hneeds : Needs ir h = true) : methodTable ir (helper h) = .bound := by
  refine Names.bindAll_mem (List.mem_cons_of_mem _ (List.mem_map_of_mem ?_))
  exact (mem_defined ir h).mpr hneeds

theorem methodTable_free {i : Ident} (hitems : i ≠ plain .items) (hhelper : ∀ h, i.family ≠ .helper h) :
    methodTable ir i = .free := by
  refine Names.bindAll_of_not_mem fun hmem => ?_
  rcases List.mem_cons.mp hmem with heq | hmem
  · exact hitems heq
  · obtain ⟨h, -, rfl⟩ := List.mem_map.mp hmem
    exact hhelper h rfl

theorem methodTable_inBlock {i : Ident} (h : InBlock idx i) : methodTable ir i = .free :=
  methodTable_free (by rintro rfl; exact h) fun h' heq => by simp [InBlock, heq] at h

/-- A struct with a column that needs a helper defines it. -/
theorem columnHelpers {c : ColumnIR} (hc : c ∈ ir.columns) (hT : ∀ h, T (helper h) = methodTable ir (helper h)) :
    ColumnHelpers c.vecDepth c.leafSpec.route.isNested T := by
  refine ⟨fun hdepth => ?_, fun hnested => ⟨?_, ?_⟩⟩
  · rw [hT]
    exact methodTable_helper (List.any_eq_true.mpr ⟨c, hc, decide_eq_true hdepth⟩)
  · rw [hT]
    exact methodTable_helper (List.any_eq_true.mpr ⟨c, hc, hnested⟩)
  · rw [hT]
    exact methodTable_helper (List.any_eq_true.mpr ⟨c, hc, hnested⟩)

/-! ## Declarations -/

/-- Every column's parts are as its encoder promises. -/
abbrev ColumnsReady (ir : StructIR) : Prop := ∀ j c, ir.columns[j]? = some c →
  ∃ own locals, (buildColumnEmit j c).Ready j (ColumnHelpers c.vecDepth c.leafSpec.route.isNested) own locals

/-- The columns before `k` have declared what they keep around the row loop. -/
structure DeclaredUpTo (ir : StructIR) (k : Nat) (T : Names Ident) : Prop where
  other : ∀ i, (∀ j < k, i.family ∈ rowFamilies → i.indices ≠ [j]) → T i = methodTable ir i
  own : ∀ j < k, ∀ c, ir.columns[j]? = some c → ∀ i, i.family ∈ rowFamilies → i.indices = [j] →
    T i = (buildColumnEmit j c).decls.exit (methodTable ir) i

theorem DeclaredUpTo.plain {k : Nat} (h : DeclaredUpTo ir k T) {i : Ident} (hi : i.family ∉ rowFamilies) :
    T i = methodTable ir i :=
  h.other i fun _ _ hmem => absurd hmem hi

theorem DeclaredUpTo.step {k : Nat} (h : DeclaredUpTo ir k T) {c : ColumnIR} (hc : ir.columns[k]? = some c)
    {helpers : Names Ident → Prop} {own locals : List Ident} (hready : (buildColumnEmit k c).Ready k helpers own locals) :
    (buildColumnEmit k c).decls.Clean T ∧ DeclaredUpTo ir (k + 1) ((buildColumnEmit k c).decls.exit T) := by
  have hfresh : ∀ i : Ident, i.indices = [k] → T i = methodTable ir i := fun i hi =>
    h.other i fun j hj _ hij => by rw [hi] at hij; cases hij; omega
  have hother : ∀ i : Ident, i ∉ own → (buildColumnEmit k c).decls.exit T i = T i := fun i hi => by
    rw [hready.declares, Names.bindAll_of_not_mem hi]
  refine ⟨hready.decls T ?_ ?_ fun i hi => ?_, fun i hi => ?_, fun j hj c' hc' i hfamily hindices => ?_⟩
  · rw [h.plain (by simp), methodTable_items]
  · rw [h.plain (by simp), methodTable_free (by simp) (by simp)]
  · obtain ⟨hfamily, hindices⟩ := hready.names i hi
    rw [hfresh i hindices]
    exact methodTable_free (by rintro rfl; simp at hfamily) (by rintro h heq; rw [heq] at hfamily; simp at hfamily)
  · rw [hother i fun hmem => hi k (Nat.lt_succ_self k) (hready.names i hmem).1 (hready.names i hmem).2]
    exact h.other i fun j hj => hi j (Nat.lt_succ_of_lt hj)
  · rcases Nat.lt_succ_iff_lt_or_eq.mp hj with hlt | rfl
    · rw [hother i fun hmem => by
        have := (hready.names i hmem).2
        rw [hindices] at this
        cases this
        omega]
      exact h.own j hlt c' hc' i hfamily hindices
    · rw [hc] at hc'
      cases hc'
      rw [hready.declares, hready.declares, Names.bindAll, Names.bindAll, hfresh i hindices]

theorem getElem?_emits {α : Type} (f : ColumnEmit → α) {k : Nat} {a : α}
    (h : ((ir.columns.mapIdx buildColumnEmit).map f)[k]? = some a) :
    ∃ c, ir.columns[k]? = some c ∧ a = f (buildColumnEmit k c) := by
  rw [List.getElem?_map, List.getElem?_mapIdx, Option.map_map, Option.map_eq_some_iff] at h
  obtain ⟨c, hc, rfl⟩ := h
  exact ⟨c, hc, rfl⟩

theorem decls_clean (hready : ColumnsReady ir) : (Code.seq (prepareColumnarParts ir).decls).Clean (methodTable ir) ∧
    DeclaredUpTo ir ir.columns.length ((Code.seq (prepareColumnarParts ir).decls).exit (methodTable ir)) := by
  have hstart : DeclaredUpTo ir 0 (methodTable ir) := ⟨fun _ _ => rfl, fun j hj => absurd hj (Nat.not_lt_zero j)⟩
  obtain ⟨hclean, hend⟩ := Code.clean_seq (P := fun k T => DeclaredUpTo ir k T) (prepareColumnarParts ir).decls hstart
    fun k code T hk hT => by
      rw [Nat.zero_add] at hT ⊢
      obtain ⟨c, hc, rfl⟩ := getElem?_emits ColumnEmit.decls hk
      obtain ⟨own, locals, hcolumn⟩ := hready k c hc
      exact hT.step hc hcolumn
  refine ⟨hclean, ?_⟩
  simpa [prepareColumnarParts] using hend

/-! ## The row loop -/

/-- What a column finds bound behind all declarations. -/
theorem DeclaredUpTo.bound (h : DeclaredUpTo ir ir.columns.length T) {c : ColumnIR} (hc : ir.columns[idx]? = some c)
    {helpers : Names Ident → Prop} {own locals : List Ident} (hready : (buildColumnEmit idx c).Ready idx helpers own locals)
    {i : Ident} (hi : i ∈ own) : T i = .bound := by
  obtain ⟨hfamily, hindices⟩ := hready.names i hi
  rw [h.own idx (List.getElem?_eq_some_iff.mp hc).1 c hc i hfamily hindices, hready.declares, Names.bindAll_mem hi]

/-- In the row loop past the pushes of the columns before `k`, which have bound their locals. -/
def LoopUpTo (T : Names Ident) (k : Nat) (U : Names Ident) : Prop :=
  ∀ i, (∀ j < k, i ≠ Idents.multiOptionLocal j) → U i = Function.update T populatorIter .bound i

theorem LoopUpTo.other {k : Nat} {U : Names Ident} (h : LoopUpTo T k U) {i : Ident} (hi : i.family ≠ .multiOptionLocal)
    (hrow : i ≠ populatorIter) : U i = T i := by
  rw [h i fun j _ => by rintro rfl; exact hi rfl, Function.update_of_ne hrow]

theorem LoopUpTo.step (hT : DeclaredUpTo ir ir.columns.length T) {k : Nat} {U : Names Ident}
    (h : LoopUpTo T k U) {c : ColumnIR}
    (hc : ir.columns[k]? = some c) {helpers : Names Ident → Prop} {own locals : List Ident}
    (hready : (buildColumnEmit k c).Ready k helpers own locals) :
    ((buildColumnEmit k c).push?.getD .done).Clean U ∧ LoopUpTo T (k + 1)
    (((buildColumnEmit k c).push?.getD .done).exit U) := by
  have htemp : ∀ i : Ident, i.family ∈ [.leafValue, .plain .mantissa, .plain .fmtErr, .collapseOptionParam] → U i = .free := by
    intro i hi
    have hne : i ≠ populatorIter ∧ i ≠ plain .items := by constructor <;> rintro rfl <;> simp at hi
    rw [h.other (fun heq => by simp [heq] at hi) hne.1, hT.plain fun hmem => by
      simp only [List.mem_cons, List.not_mem_nil, or_false] at hi hmem
      rcases hi with hi | hi | hi | hi <;> simp [hi] at hmem]
    exact methodTable_free hne.2 fun h heq => by simp [heq] at hi
  refine ⟨hready.push U ?_ ⟨?_, ?_, ?_, ?_⟩ (fun i hi => ?_) fun i hi => ?_, fun i hi => ?_⟩
  · rw [h _ fun j _ => by simp, Function.update_self]
  · exact htemp _ (by simp)
  · exact htemp _ (by simp)
  · exact htemp _ (by simp)
  · exact htemp _ (by simp)
  · rw [hready.localNames i hi, h _ fun j hj => by simp; omega, Function.update_of_ne (by simp), hT.plain (by simp)]
    exact methodTable_free (by simp) (by simp)
  · have hfamily := (hready.names i hi).1
    rw [h.other (fun heq => by simp [heq] at hfamily) (by rintro rfl; simp at hfamily), hT.bound hc hready hi]
  · rw [hready.pushDeclares, Names.bindAll_of_not_mem fun hmem => hi k (Nat.lt_succ_self k) (hready.localNames i hmem)]
    exact h i fun j hj => hi j (Nat.lt_succ_of_lt hj)

theorem pushLoop_closed (pushes : List TokenStream) : (pushLoop pushes).Closed := by
  intro T
  unfold pushLoop
  split <;> simp [items]

theorem pushLoop_clean (hready : ColumnsReady ir) (hT : DeclaredUpTo ir ir.columns.length T) :
    (pushLoop (prepareColumnarParts ir).pushes).Clean T := by
  have hiter : items.exit T = T := by simp [items]
  have hitems : T (plain .items) = .bound := by rw [hT.plain (by simp), methodTable_items]
  unfold pushLoop
  split
  · trivial
  · rw [clean_forIn, hiter]
    refine ⟨by simp [items, hitems], ?_, ?_⟩
    · rw [hT.plain (by simp), methodTable_free (by simp) (by simp)]
    · rw [prepareColumnarParts, Code.seq_filterMap]
      have hstart : LoopUpTo T 0 (Function.update T populatorIter .bound) := fun _ _ => rfl
      refine (Code.clean_seq (P := fun k U => LoopUpTo T k U) _ hstart fun k code U hk hU => ?_).1
      rw [Nat.zero_add] at hU ⊢
      obtain ⟨c, hc, rfl⟩ := getElem?_emits (fun emit => emit.push?.getD .done) hk
      obtain ⟨own, locals, hcolumn⟩ := hready k c hc
      exact hU.step hT hc hcolumn

/-! ## The builders -/

theorem DeclaredUpTo.builderScope (hT : DeclaredUpTo ir ir.columns.length T) {c : ColumnIR} (hc : ir.columns[idx]? = some c)
    {helpers : Names Ident → Prop} {own locals : List Ident}
    (hready : (buildColumnEmit idx c).Ready idx helpers own locals) :
    BuilderScope idx own (Function.update T columns .bound) := by
  have hne : ∀ i ∈ own, i ≠ columns := by
    rintro i hi rfl
    have hfamily := (hready.names _ hi).1
    simp at hfamily
  refine ⟨?_, Function.update_self .., fun i hi => ?_, fun i hblock hown => ?_⟩
  · rw [Function.update_of_ne (by simp), hT.plain (by simp), methodTable_items]
  · rw [Function.update_of_ne (hne i hi), hT.bound hc hready hi]
  · rw [Function.update_of_ne (by rintro rfl; exact hblock)]
    by_cases hfamily : i.family ∈ rowFamilies
    · have hindices : i.indices = [idx] := (inBlock_row hfamily).mp hblock
      rw [hT.own idx (List.getElem?_eq_some_iff.mp hc).1 c hc i hfamily hindices, hready.declares, Names.bindAll_of_not_mem hown,
        methodTable_inBlock hblock]
    · rw [hT.plain hfamily, methodTable_inBlock hblock]

theorem builders_clean (hready : ColumnsReady ir) (hT : DeclaredUpTo ir ir.columns.length T) :
    (Code.seq (prepareColumnarParts ir).builders).Clean (Function.update T columns .bound) ∧
      (Code.seq (prepareColumnarParts ir).builders).exit (Function.update T columns .bound) =
        Function.update T columns .bound := by
  refine Code.clean_seq (P := fun _ U => U = Function.update T columns .bound) (k := 0) _ rfl fun k code U hk hU => ?_
  obtain ⟨c, hc, rfl⟩ := getElem?_emits ColumnEmit.builder hk
  obtain ⟨own, locals, hcolumn⟩ := hready k c hc
  subst hU
  refine ⟨hcolumn.builder _ (hT.builderScope hc hcolumn) (columnHelpers (List.mem_of_getElem? hc) fun h => ?_),
    hcolumn.builderClosed _⟩
  rw [Function.update_of_ne (by simp), hT.plain (by simp)]

theorem uniqueNameValidation_clean (ir : StructIR) {U : Names Ident} (hcolumns : U columns = .bound)
    (hcolumn : U (plain .column) = .free)
    (hhelper : needsUniqueNameValidation ir = true → U (helper .validateUniqueColumnNames) = .bound) :
    (uniqueNameValidation ir).Clean U ∧ (uniqueNameValidation ir).exit U = U := by
  unfold uniqueNameValidation
  split
  · rename_i hneeds
    simp [hcolumns, hcolumn, hhelper hneeds]
  · exact ⟨trivial, rfl⟩

theorem heightFrame_clean {U : Names Ident} (hitems : U (plain .items) = .bound)
    (hfree : ∀ i ∈ [plain .numRows, plain .dummy, plain .df], U i = .free) : heightFrame.Clean U := by
  simp [heightFrame, items, hitems, hfree]

/-- The body of a method is clean inside its scope. -/
theorem columnarMethodBody_clean (hready : ColumnsReady ir) : (columnarMethodBody ir).Clean (methodTable ir) := by
  obtain ⟨hdecls, hT⟩ := decls_clean hready
  have hitems : items.Clean (methodTable ir) ∧ items.exit (methodTable ir) = methodTable ir := by
    simp [items, methodTable_items]
  have hloop := pushLoop_clean hready hT
  obtain ⟨hbuilders, hbuildersExit⟩ := builders_clean hready hT
  generalize hdeclared : (Code.seq (prepareColumnarParts ir).decls).exit (methodTable ir) = T at hT hloop hbuilders hbuildersExit
  have hcolumns : T columns = .free := by rw [hT.plain (by simp), methodTable_free (by simp) (by simp)]
  have hplain : ∀ i : Ident, i.family ∉ rowFamilies → i ≠ columns → Function.update T columns .bound i = methodTable ir i :=
    fun i hi hne => by rw [Function.update_of_ne hne, hT.plain hi]
  have hvalidation := uniqueNameValidation_clean ir (U := Function.update T columns .bound) (Function.update_self ..)
    (by rw [hplain _ (by simp) (by simp), methodTable_free (by simp) (by simp)])
    fun hneeds => by
      rw [hplain _ (by simp) (by simp)]
      exact methodTable_helper (h := .validateUniqueColumnNames) hneeds
  have hheight : heightFrame.Clean (Function.update T columns .bound) := by
    have htemp : ∀ i ∈ [plain .numRows, plain .dummy, plain .df], i.family ∉ rowFamilies ∧ i ≠ columns ∧ InBlock 0 i := by
      simp [InBlock]
    refine heightFrame_clean (by rw [hplain _ (by simp) (by simp), methodTable_items]) fun i hi => ?_
    obtain ⟨hrow, hne, hblock⟩ := htemp i hi
    rw [hplain i hrow hne, methodTable_inBlock hblock]
  have hheightExit : heightFrame.exit (Function.update T columns .bound) = Function.update T columns .bound := rfl
  unfold columnarMethodBody
  simp only [Code.clean_append, Code.exit_append, hitems, hdeclared, pushLoop_closed _ _, clean_letIn, exit_letIn, Code.clean_done,
    Code.exit_done, hbuildersExit, hvalidation, hheightExit, exit_use, clean_use, List.forall_mem_singleton, Function.update_self]
  exact ⟨⟨⟨⟨⟨⟨⟨⟨trivial, hdecls⟩, hloop⟩, trivial, hcolumns⟩, hbuilders⟩, trivial⟩, trivial⟩, hheight⟩, trivial⟩

end

/-! ## The generated methods -/

/-- A shape whose cached counts can be relied on flags the layers and leaves that have an
    `Option` in their chain. -/
theorem nestedAgrees_of_nullable {shape : VecLayers} (h : shape.Nullable) : NestedAgrees shape := by
  have hpos : ∀ chain : AccessChain, .option ∈ chain.steps → 0 < chain.optionLayers := fun chain hmem => by
    rw [AccessChain.optionLayers, List.countP_pos_iff]
    exact ⟨.option, hmem, rfl⟩
  refine ⟨fun spec hspec hmem => ?_, fun hmem => ?_⟩
  · exact decide_eq_true ((h.outer spec hspec).mpr (hpos _ hmem))
  · exact decide_eq_true (h.inner.mpr (hpos _ hmem))

theorem columnsReady {ir : StructIR} (h : ∀ c ∈ ir.columns, c.shape.Counted) : ColumnsReady ir := by
  intro j c hc
  refine buildColumnEmit_ready j c fun shape hshape => nestedAgrees_of_nullable ?_
  have hcounted := h c (List.mem_of_getElem? hc)
  rw [hshape] at hcounted
  exact hcounted

theorem captureFree_of_counted {ir : StructIR} (h : ∀ c ∈ ir.columns, c.shape.Counted) :
    CaptureFree Ident.text (methodScope ir) (columnarMethodBody ir) :=
  (columnarMethodBody_clean (columnsReady h)).captureFree Ident.text_injective (methodTable_models ir)

end DfDerive.Scoped

namespace DfDerive

open Lib Scoped

theorem DerivedStruct.counted (s : DerivedStruct) : ∀ c ∈ s.ir.columns, c.shape.Counted := by
  have hall := s.each_column fun c r hcr => And.intro hcr.follows.counted hcr
  exact ((List.forall₂_and_left _ _).mp hall).1

/-- In the method generated for a struct, however many columns of whatever kind and depth it
    has, every read of an injected name finds the binder its emitter meant, and no binder is
    met while itself in scope; no two names of the registry are rendered alike. This holds of
    every accepted struct, and of every list of columns whose cached counts are right. -/
theorem walks_captureFree : Function.Injective Ident.text ∧
    (∀ ir : StructIR, (∀ c ∈ ir.columns, c.shape.Counted) →
      CaptureFree Ident.text (methodScope ir) (Scoped.columnarMethodBody ir)) ∧
    ∀ s : DerivedStruct, CaptureFree Ident.text (methodScope s.ir) (Scoped.columnarMethodBody s.ir) :=
  ⟨Ident.text_injective, fun _ h => captureFree_of_counted h, fun s => captureFree_of_counted s.counted⟩

end DfDerive
