/-
  DfDerive.Columns.Leaves — the leaves of declared fields, and their columns.

  A declared field has a leaf for every base its type has outside tuples; a leaf is found by
  the field, and by the position of one element in each tuple on the way (`Fields.leaves`).

  - `DerivedStruct.columns_leaves`: an accepted struct has one column for every leaf of the
    fields it keeps, in the order of the declaration, named by the way to the leaf and reading
    along it; no two are the same, and no assertion of the projection fires.
-/

import DfDerive.Columns.Tuples
import DfDerive.Lower.Checks

namespace DfDerive

open Lib

/-! ## Declared leaves -/

/-- A leaf of a type, and the tuple elements on the way to it, each with the pointers around it. -/
structure TypeLeaf where
  path : List TupleProjectionStep
  base : LeafBase

/-- The pointers a type starts with. -/
def outerPointers (stack : List RawWrapper) : Nat := (stack.takeWhile (· == .smartPtr)).length

mutual
/-- The leaves of a type, depth first. -/
def baseLeaves (path : List TupleProjectionStep) : RustBase → List TypeLeaf
  | .leaf base => [⟨path, base⟩]
  | .tuple elements => typesLeaves path 0 elements

/-- The leaves of the elements from the position `index` on. -/
def typesLeaves (path : List TupleProjectionStep) (index : Nat) : List RustType → List TypeLeaf
  | [] => []
  | element :: elements => typeLeaves path index element ++ typesLeaves path (index + 1) elements

def typeLeaves (path : List TupleProjectionStep) (index : Nat) : RustType → List TypeLeaf
  | .mk stack base => baseLeaves (path ++ [⟨index, outerPointers stack⟩]) base
end

/-- A leaf of a field. -/
structure FieldLeaf extends TypeLeaf where
  root : FieldSource
  conversion : FieldConversion

/-- The leaf's encoding: the field's attribute applies to a field that is not a tuple. -/
def FieldLeaf.leafSpec (l : FieldLeaf) : Except LowerError LeafSpec :=
  match l.path, l.conversion with
  | [], .leafOverride value => parseLeafSpec l.root.name (some value) (.leaf l.base)
  | [], .binary => .ok .binary
  | [], _ => defaultLeafForLeafBase l.root.name true l.base
  | _ :: _, _ => defaultLeafForLeafBase l.root.name false l.base

def FieldDecl.leaves (name : String) (fieldIndex : Option Nat) (field : FieldDecl) : List FieldLeaf :=
  match field.disposition, field.ty with
  | .skip, _ => []
  | .include conversion, .mk stack base =>
    (baseLeaves [] base).map fun l => ⟨l, ⟨name, fieldIndex, outerPointers stack⟩, conversion⟩

/-- The leaves of the fields that are not skipped; a skipped field keeps its index. -/
def Fields.leaves : Fields → List FieldLeaf
  | .named fields => fields.flatMap fun f => f.2.leaves f.1 none
  | .unnamed fields => fields.zipIdx.flatMap fun f => f.1.leaves s!"field_{f.2}" (some f.2)
  | .unit => []

/-! ## Where a column reads -/

namespace ColumnIR

def root : ColumnIR → FieldSource
  | field c => c.source
  | tupleStatic c => c.root
  | tupleParentOption c => c.root
  | tupleParentVec c => c.root

def path : ColumnIR → List TupleProjectionStep
  | field _ => []
  | tupleStatic c => c.path.toList
  | tupleParentOption c => c.path.toList
  | tupleParentVec c => [c.terminalStep]

/-- The column of a declared leaf. -/
structure Of (c : ColumnIR) (l : FieldLeaf) : Prop where
  root : c.root = l.root
  path : c.path = l.path
  name : c.name = pathName (columnNameForIdent l.root.name) l.path
  leafSpec : l.leafSpec = .ok c.leafSpec.leaf

/-- The column projected for a leaf of a tuple. -/
structure At (c : ColumnIR) (source : FieldSource) (column : String) (l : ElementLeaf) : Prop where
  root : c.root = source
  path : c.path = l.path
  name : c.name = pathName column l.path
  leafSpec : c.leafSpec = l.leaf

end ColumnIR

theorem projectTupleElement_at {root : FieldSource} {column : String} {parent shape : WrapperShape}
    {pathPrefix : List TupleProjectionStep} (step : TupleProjectionStep) (leaf : TerminalLeafSpec)
    (hpath : parent = .leaf .bare ∨ pathPrefix = []) :
    (projectTupleElement root (pathName column (pathPrefix ++ [step])) parent pathPrefix step shape leaf).At root column
      ⟨pathPrefix ++ [step], shape, leaf⟩ := by
  rcases hpath with rfl | rfl
  · cases pathPrefix <;> exact ⟨rfl, rfl, rfl, rfl⟩
  · cases parent with
    | leaf s => cases s <;> exact ⟨rfl, rfl, rfl, rfl⟩
    | vec layers => exact ⟨rfl, rfl, rfl, rfl⟩

theorem terminalLeaf_at {root : FieldSource} {column : String} {path : List TupleProjectionStep} {shape : WrapperShape}
    {leafSpec : LeafSpec} {f : TerminalLeafSpec → ColumnIR} (h : ∀ leaf, (f leaf).At root column ⟨path, shape, leaf⟩) :
    List.Forall₂ (fun c l => c.At root column l) (terminalLeaf leafSpec f)
      ((TerminalLeafSpec.new leafSpec).toList.map fun leaf => (⟨path, shape, leaf⟩ : ElementLeaf)) := by
  unfold terminalLeaf
  cases TerminalLeafSpec.new leafSpec with
  | none => exact .nil
  | some leaf => exact .cons (h leaf) .nil

mutual
/-- A column for every leaf of a tuple, in order. -/
theorem projectTupleElements_at (root : FieldSource) (column : String) {parent : WrapperShape}
    {path : List TupleProjectionStep} (hpath : parent = .leaf .bare ∨ path = []) : ∀ (index : Nat)
    (elements : List TupleElement), ElementsProjectable (parent = .leaf .bare) elements →
      List.Forall₂ (fun c l => c.At root column l) (projectTupleElements root (pathName column path) parent path index elements)
        (elementsLeaves path index elements)
  | _, [], _ => .nil
  | index, element :: elements, h =>
    List.rel_append (projectElement_at root column hpath index element h.1)
      (projectTupleElements_at root column hpath (index + 1) elements h.2)

theorem projectElement_at (root : FieldSource) (column : String) {parent : WrapperShape} {path : List TupleProjectionStep}
    (hpath : parent = .leaf .bare ∨ path = []) (index : Nat) : ∀ element : TupleElement,
    ElementProjectable (parent = .leaf .bare) element →
      List.Forall₂ (fun c l => c.At root column l)
        (projectElement root (fieldName (pathName column path) index) parent path index element) (elementLeaves path index element)
  | .mk leafSpec shape depth, h => by
    rw [projectElement, ← pathName_append column path ⟨index, depth⟩]
    exact projectElementLeaf_at root column hpath ⟨index, depth⟩ shape leafSpec h.2

theorem projectElementLeaf_at (root : FieldSource) (column : String) {parent : WrapperShape}
    {path : List TupleProjectionStep}
    (hpath : parent = .leaf .bare ∨ path = []) (step : TupleProjectionStep) (shape : WrapperShape) : ∀ leafSpec : LeafSpec,
    LeafProjectable (parent = .leaf .bare ∧ shape = .leaf .bare) leafSpec →
      List.Forall₂ (fun c l => c.At root column l)
        (projectElementLeaf root (pathName column (path ++ [step])) parent path step shape leafSpec)
        (leafLeaves (path ++ [step]) shape leafSpec)
  | .tuple elements, h => by
    obtain ⟨⟨rfl, -⟩, helements⟩ := h
    have hinner : ElementsProjectable (WrapperShape.leaf .bare = .leaf .bare) elements := by
      rw [eq_true (rfl : WrapperShape.leaf .bare = .leaf .bare)]
      exact helements
    exact projectTupleElements_at root column (Or.inl rfl) 0 elements hinner
  | .numeric _, _ | .string, _ | .bool, _ | .dateTime _, _ | .naiveDateTime _, _ | .naiveDate, _ | .naiveTime, _
  | .duration _ _, _ | .decimal _ _ _, _ | .asString _, _ | .asStr _, _ | .binary, _ | .struct _, _ | .generic _, _ =>
    terminalLeaf_at fun leaf => projectTupleElement_at step leaf hpath
end

/-! ## Declared values -/

mutual
/-- A value of a type, whose leaves satisfy `P` at their positions. -/
def RustType.Holds (P : List Nat → Value → Prop) (position : List Nat) : RustType → Value → Prop
  | .mk stack base => HasWord (base.Holds P position) stack

def RustBase.Holds (P : List Nat → Value → Prop) (position : List Nat) : RustBase → Value → Prop
  | .leaf _ => P position
  | .tuple elements => fun v => ∃ vs, v = .tuple vs ∧ TypesHold P position 0 elements vs

def TypesHold (P : List Nat → Value → Prop) (position : List Nat) (index : Nat) : List RustType → List Value → Prop
  | [], vs => vs = []
  | element :: elements, vs => ∃ v rest, vs = v :: rest ∧ element.Holds P (position ++ [index]) v ∧
    TypesHold P position (index + 1) elements rest
end

theorem outerPointers_eq {stack : List RawWrapper} {p : PeeledType} (h : p.Of stack) :
    outerPointers stack = p.outerSmartPtrDepth := by
  have hkept : p.wrappers.takeWhile (· == .smartPtr) = [] := by
    cases hw : p.wrappers with
    | nil => rfl
    | cons w ws =>
      cases w with
      | smartPtr => exact absurd hw (h.first ws)
      | option => rfl
      | vec => rfl
  rw [outerPointers, h.stack, List.takeWhile_append_of_pos fun w hw => by rw [List.eq_of_mem_replicate hw]; rfl, hkept,
    List.append_nil, List.length_replicate]

/-- A value below pointers, the pointers removed. -/
theorem hasWord_pointers {P : Value → Prop} (w : List RawWrapper) : ∀ (n : Nat) {v : Value},
    HasWord P (List.replicate n .smartPtr ++ w) v → ∃ u, v.derefN n = some u ∧ HasWord P w u
  | 0, v, h => ⟨v, rfl, h⟩
  | n + 1, v, h => by
    cases v with
    | ptr v => exact hasWord_pointers w n h
    | _ => exact h.elim

theorem peeled_holds {P : Value → Prop} {stack : List RawWrapper} {v : Value} (h : HasWord P stack v) :
    ∃ u, v.derefN (peelTypeWrappers stack).outerSmartPtrDepth = some u ∧ HasWord P (peelTypeWrappers stack).wrappers u := by
  rw [(peelTypeWrappers_of stack).stack] at h
  exact hasWord_pointers _ _ h

/-- The leaf is found from the value at `path`, further along its own path and below its wrappers. -/
def ElementLeaf.Reached (l : ElementLeaf) (P : List Nat → Value → Prop) (path : List TupleProjectionStep) (v : Value) : Prop :=
  ∃ rest, l.path = path ++ rest ∧ ∃ u, pathValue rest v = some u ∧
    HasWord (P (l.path.map TupleProjectionStep.index)) l.shape.word u

theorem projectValue_element {done rest : List Value} {v u : Value} {depth : Nat} (h : v.derefN depth = some u) :
    projectValue done.length depth (.tuple (done ++ v :: rest)) = some u := by
  have hget : (done ++ v :: rest)[done.length]? = some v := by
    rw [List.getElem?_append_right (Nat.le_refl _), Nat.sub_self]
    rfl
  rw [projectValue, hget]
  exact h

/-- One element down. -/
theorem ElementLeaf.Reached.step {l : ElementLeaf} {P : List Nat → Value → Prop} {path : List TupleProjectionStep}
    {done rest : List Value} {v u : Value} {depth : Nat} (hv : v.derefN depth = some u)
    (h : l.Reached P (path ++ [⟨done.length, depth⟩]) u) : l.Reached P path (.tuple (done ++ v :: rest)) := by
  obtain ⟨further, hpath, x, hx, hP⟩ := h
  refine ⟨⟨done.length, depth⟩ :: further, by rw [hpath, List.append_assoc]; rfl, x, ?_, hP⟩
  rw [pathValue, projectValue_element hv]
  exact hx

theorem leafLeaves_terminal {leafSpec : LeafSpec} (h : leafSpec.terminalRoute.isSome = true)
    (path : List TupleProjectionStep) (shape : WrapperShape) :
    leafLeaves path shape leafSpec = [⟨path, shape, ⟨leafSpec, h⟩⟩] := by
  have hnew : TerminalLeafSpec.new leafSpec = some ⟨leafSpec, h⟩ := dif_pos h
  cases leafSpec with
  | tuple elements => cases h
  | _ =>
    simp only [leafLeaves, hnew]
    rfl

theorem defaultLeaf_terminal {field : String} {canAddAsBinary : Bool} {base : LeafBase} {leafSpec : LeafSpec}
    (h : defaultLeafForLeafBase field canAddAsBinary base = .ok leafSpec) : leafSpec.terminalRoute.isSome = true := by
  cases base <;> cases h <;> rfl

theorem analyzeBaseType_tuple {elements : List RustType} {base : AnalyzedBase}
    (h : analyzeBaseType (.tuple elements) = .ok base) :
    ∃ analyzed, base = .tuple analyzed ∧ analyzeTypes elements = .ok analyzed := by
  cases elements with
  | nil => cases h
  | cons element elements =>
    obtain ⟨first, hfirst, h⟩ := bind_eq_ok.mp h
    obtain ⟨rest, hrest, hok⟩ := bind_eq_ok.mp h
    cases hok
    refine ⟨first :: rest, rfl, ?_⟩
    rw [analyzeTypes, hfirst, ok_bind, hrest]
    rfl

mutual
/-- The leaves of an accepted tuple are reached from its values, from the position of `done` on. -/
theorem elementsLeaves_reached {P : List Nat → Value → Prop} {field : String} {wrapped : Bool} : ∀ {types : List RustType}
    {analyzed : List AnalyzedType} {elements : List TupleElement} (path : List TupleProjectionStep) (done vs : List Value),
    analyzeTypes types = .ok analyzed → rejectWrappedElements field wrapped analyzed = .ok () →
      analyzedToTupleElements field analyzed = .ok elements →
        TypesHold P (path.map TupleProjectionStep.index) done.length types vs →
          ∀ l ∈ elementsLeaves path done.length elements, l.Reached P path (.tuple (done ++ vs))
  | [], _, _, _, _, _, ha, _, he, _, l, hl => by
    cases ha
    cases he
    cases hl
  | .mk stack base :: types, _, _, path, done, vs, ha, hr, he, hv, l, hl => by
    obtain ⟨_, hfirst, ha⟩ := bind_eq_ok.mp ha
    obtain ⟨rest, hrest, hok⟩ := bind_eq_ok.mp ha
    cases hok
    obtain ⟨b, hbase, hok⟩ := bind_eq_ok.mp (show _ = _ from (analyzeType.eq_1 stack base) ▸ hfirst)
    cases hok
    obtain ⟨_, hlowered, he⟩ := bind_eq_ok.mp he
    obtain ⟨elements, hothers, hok⟩ := bind_eq_ok.mp he
    cases hok
    obtain ⟨leafSpec, hleaf, hok⟩ := bind_eq_ok.mp hlowered
    cases hok
    obtain ⟨v, others, rfl, hhead, htail⟩ := hv
    rw [rejectWrappedElements] at hr
    split at hr
    · cases hr
    · rename_i hunwrapped
      obtain ⟨⟨⟩, hinner, hr⟩ := bind_eq_ok.mp hr
      have hbare : b.isTuple = true → wrapped = false ∧ (peelTypeWrappers stack).wrappers = [] := by
        simpa [hasSemanticWrappers] using hunwrapped
      rcases List.mem_append.mp hl with hl | hl
      · obtain ⟨u, hu, hword⟩ := peeled_holds hhead
        refine .step hu (leafLeaves_reached _ (peelTypeWrappers_of stack).first hbase hinner (fun h => (hbare h).2) hleaf ?_ l hl)
        rw [List.map_append]
        exact hword
      · have htail : TypesHold P (path.map TupleProjectionStep.index) (done ++ [v]).length types others := by
          rw [List.length_append]
          exact htail
        have hrec := elementsLeaves_reached path (done ++ [v]) others hrest hr hothers htail l
        rw [List.length_append, List.append_assoc] at hrec
        exact hrec hl

theorem leafLeaves_reached {P : List Nat → Value → Prop} {field : String} {canAddAsBinary : Bool} {depth : Nat} :
    ∀ {base : RustBase} {analyzed : AnalyzedBase} {wrappers : List RawWrapper} {leafSpec : LeafSpec} {v : Value}
    (path : List TupleProjectionStep), (∀ ws, wrappers ≠ .smartPtr :: ws) → analyzeBaseType base = .ok analyzed →
      rejectUnsupportedWrappedNestedTuples field (.mk analyzed wrappers depth) = .ok () →
        (analyzed.isTuple = true → wrappers = []) → defaultLeafForBase field canAddAsBinary analyzed = .ok leafSpec →
          HasWord (base.Holds P (path.map TupleProjectionStep.index)) wrappers v →
            ∀ l ∈ leafLeaves path (normalizeWrappers wrappers) leafSpec, l.Reached P path v
  | .leaf base, _, wrappers, leafSpec, v, path, hfirst, ha, _, _, hleaf, hv, l, hl => by
    cases ha
    have hleaf : defaultLeafForLeafBase field canAddAsBinary base = .ok leafSpec := hleaf
    rw [leafLeaves_terminal (defaultLeaf_terminal hleaf), List.mem_singleton] at hl
    subst hl
    refine ⟨[], (List.append_nil path).symm, v, rfl, ?_⟩
    show HasWord _ (normalizeWrappers wrappers).word v
    rw [normalizeWrappers_word hfirst]
    exact hv
  | .tuple types, _, wrappers, leafSpec, v, path, _, ha, hr, hbare, hleaf, hv, l, hl => by
    obtain ⟨analyzed, rfl, htypes⟩ := analyzeBaseType_tuple ha
    obtain ⟨elements, helements, hok⟩ := bind_eq_ok.mp hleaf
    cases hok
    have hnil : wrappers = [] := hbare rfl
    subst hnil
    obtain ⟨vs, rfl, hvs⟩ := hv
    exact elementsLeaves_reached path [] vs htypes hr helements hvs l hl
end

/-! ## Lowered leaves -/

/-- A leaf of a lowered tuple is the declared one. -/
structure ElementLeaf.Lowers (field : String) (l : ElementLeaf) (d : TypeLeaf) : Prop where
  path : l.path = d.path
  leafSpec : defaultLeafForLeafBase field false d.base = .ok l.leaf.leaf

mutual
theorem elementsLeaves_lower {field : String} : ∀ {types : List RustType} {analyzed : List AnalyzedType}
    {elements : List TupleElement} (path : List TupleProjectionStep) (index : Nat), analyzeTypes types = .ok analyzed →
      analyzedToTupleElements field analyzed = .ok elements →
        List.Forall₂ (ElementLeaf.Lowers field) (elementsLeaves path index elements) (typesLeaves path index types)
  | [], _, _, _, _, ha, he => by
    cases ha
    cases he
    exact .nil
  | .mk stack base :: types, _, _, path, index, ha, he => by
    obtain ⟨_, hfirst, ha⟩ := bind_eq_ok.mp ha
    obtain ⟨rest, hrest, hok⟩ := bind_eq_ok.mp ha
    cases hok
    obtain ⟨b, hbase, hok⟩ := bind_eq_ok.mp (show _ = _ from (analyzeType.eq_1 stack base) ▸ hfirst)
    cases hok
    obtain ⟨_, hlowered, he⟩ := bind_eq_ok.mp he
    obtain ⟨elements, hothers, hok⟩ := bind_eq_ok.mp he
    cases hok
    obtain ⟨leafSpec, hleaf, hok⟩ := bind_eq_ok.mp hlowered
    cases hok
    rw [typesLeaves, typeLeaves, outerPointers_eq (peelTypeWrappers_of stack)]
    exact List.rel_append (leafLeaves_lower _ _ hbase hleaf) (elementsLeaves_lower path (index + 1) hrest hothers)

theorem leafLeaves_lower {field : String} : ∀ {base : RustBase} {analyzed : AnalyzedBase} {leafSpec : LeafSpec}
    (path : List TupleProjectionStep) (shape : WrapperShape), analyzeBaseType base = .ok analyzed →
      defaultLeafForBase field false analyzed = .ok leafSpec →
        List.Forall₂ (ElementLeaf.Lowers field) (leafLeaves path shape leafSpec) (baseLeaves path base)
  | .leaf base, _, leafSpec, path, shape, ha, hleaf => by
    cases ha
    have hleaf : defaultLeafForLeafBase field false base = .ok leafSpec := hleaf
    rw [leafLeaves_terminal (defaultLeaf_terminal hleaf)]
    exact .cons ⟨rfl, hleaf⟩ .nil
  | .tuple types, _, leafSpec, path, shape, ha, hleaf => by
    obtain ⟨analyzed, rfl, htypes⟩ := analyzeBaseType_tuple ha
    obtain ⟨elements, helements, hok⟩ := bind_eq_ok.mp hleaf
    cases hok
    exact elementsLeaves_lower path 0 htypes helements
end

/-! ## The columns of a field -/

/-- What holds of the values of a leaf; bytes encoded as one binary are its value together. -/
def FieldLeaf.value (l : FieldLeaf) (P : List Nat → Value → Prop) : Value → Prop :=
  match l.conversion with
  | .binary => HasWord (P (l.path.map TupleProjectionStep.index)) (bytesTail (.leaf l.base))
  | _ => P (l.path.map TupleProjectionStep.index)

/-- The field of a row is a value of the declared type. A skipped field may hold anything. -/
def FieldDecl.Holds (field : FieldDecl) (name : String) (fieldIndex : Option Nat) (P : String → List Nat → Value → Prop)
    (row : Value) : Prop :=
  field.disposition ≠ .skip → ∃ v, (FieldSource.mk name fieldIndex 0).raw? row = some v ∧ field.ty.Holds (P name) [] v

/-- On the rows in question the column ends at the values of the leaf. -/
def ColumnIR.Reads (c : ColumnIR) (l : FieldLeaf) (rows : (String → List Nat → Value → Prop) → Value → Prop) : Prop :=
  ∃ w carried, c.Follows w carried ∧ ∀ P row, rows P row → w.typed (l.value (P l.root.name)) row

theorem ColumnIR.Reads.mono {c : ColumnIR} {l : FieldLeaf} {rows rows' : (String → List Nat → Value → Prop) → Value → Prop}
    (h : c.Reads l rows) (hrows : ∀ P row, rows' P row → rows P row) : c.Reads l rows' := by
  obtain ⟨w, carried, hfollows, htyped⟩ := h
  exact ⟨w, carried, hfollows, fun P row hrow => htyped P row (hrows P row hrow)⟩

theorem forall₂_trans {α β γ : Type} {R : α → β → Prop} {S : β → γ → Prop} {T : α → γ → Prop} {as : List α} {bs : List β}
    {cs : List γ} (hr : List.Forall₂ R as bs) (hs : List.Forall₂ S bs cs)
    (h : ∀ a, ∀ b ∈ bs, ∀ c ∈ cs, R a b → S b c → T a c) : List.Forall₂ T as cs := by
  induction hr generalizing cs with
  | nil =>
    cases hs
    exact .nil
  | cons hab _ ih =>
    cases hs with
    | cons hbc hs =>
      refine .cons (h _ _ List.mem_cons_self _ List.mem_cons_self hab hbc) (ih hs fun a b hb c hc => ?_)
      exact h a b (List.mem_cons_of_mem _ hb) c (List.mem_cons_of_mem _ hc)

theorem terminal_of_leafBase {field : String} {override? : Option LeafOverride} {base : LeafBase} {leafSpec : LeafSpec}
    (h : parseLeafSpec field override? (.leaf base) = .ok leafSpec) : leafSpec.terminalRoute.isSome = true := by
  cases leafSpec with
  | tuple elements =>
    obtain ⟨_, hbase, -⟩ := parseLeafSpec_tuple h
    cases hbase
  | _ => rfl

theorem projectField_terminal {field : FieldIR} (h : field.leafSpec.terminalRoute.isSome = true) :
    projectField field =
      [.field ⟨⟨columnNameForIdent field.name, ⟨field.leafSpec, h⟩, field.nestedNamePolicy⟩, field.root, field.wrapperShape⟩] := by
  obtain ⟨name, fieldIndex, leafSpec, shape, depth, policy⟩ := field
  have hnew : TerminalLeafSpec.new leafSpec = some ⟨leafSpec, h⟩ := dif_pos h
  cases leafSpec with
  | tuple elements => cases h
  | _ =>
    simp only [projectField, terminalLeaf, hnew]
    rfl

/-- The value of a field, its pointers removed. -/
theorem FieldDecl.Holds.value {stack : List RawWrapper} {base : RustBase} {conversion : FieldConversion} {name : String}
    {fieldIndex : Option Nat} {P : String → List Nat → Value → Prop} {row : Value}
    (h : FieldDecl.Holds ⟨.mk stack base, .include conversion⟩ name fieldIndex P row) :
    ∃ v, (FieldSource.mk name fieldIndex (peelTypeWrappers stack).outerSmartPtrDepth).value? row = some v ∧
      HasWord (base.Holds (P name) []) (peelTypeWrappers stack).wrappers v := by
  obtain ⟨x, hx, hholds⟩ := h nofun
  obtain ⟨v, hv, hword⟩ := peeled_holds hholds
  refine ⟨v, ?_, hword⟩
  have hraw : (FieldSource.mk name fieldIndex (peelTypeWrappers stack).outerSmartPtrDepth).raw? row = some x := hx
  rw [FieldSource.value?, hraw]
  exact hv

/-- A field that is not a tuple has one column. -/
theorem leafField_leaves {stack : List RawWrapper} {base : LeafBase} {conversion : FieldConversion} {name : String}
    {fieldIndex : Option Nat} {leafSpec : LeafSpec} {wrappers : List RawWrapper} {policy : NestedNamePolicy}
    (hterminal : leafSpec.terminalRoute.isSome = true) (hfirst : ∀ ws, wrappers ≠ .smartPtr :: ws)
    (hleaf : (FieldLeaf.mk ⟨[], base⟩ ⟨name, fieldIndex, outerPointers stack⟩ conversion).leafSpec = .ok leafSpec)
    (hvalue : ∀ (P : List Nat → Value → Prop) v, HasWord (P []) (peelTypeWrappers stack).wrappers v →
      HasWord ((FieldLeaf.mk ⟨[], base⟩ ⟨name, fieldIndex, outerPointers stack⟩ conversion).value P) wrappers v) :
    List.Forall₂ (fun c l => ColumnIR.Of c l ∧ c.Reads l
        ((FieldDecl.mk (.mk stack (.leaf base)) (.include conversion)).Holds name fieldIndex))
      (projectField ⟨name, fieldIndex, leafSpec, normalizeWrappers wrappers, (peelTypeWrappers stack).outerSmartPtrDepth, policy⟩)
      ((FieldDecl.mk (.mk stack (.leaf base)) (.include conversion)).leaves name fieldIndex) := by
  have hpointers := outerPointers_eq (peelTypeWrappers_of stack)
  rw [projectField_terminal hterminal]
  refine .cons ⟨⟨?_, rfl, rfl, hleaf⟩, _, _, follows_field _ (normalizeWrappers_normalized hfirst).counted,
    fun P row hrow => ?_⟩ .nil
  · show FieldSource.mk _ _ _ = FieldSource.mk _ _ _
    rw [hpointers]
  · obtain ⟨v, hv, hword⟩ := hrow.value
    refine ⟨v, hv, ?_⟩
    show HasWord _ (normalizeWrappers wrappers).word v
    rw [normalizeWrappers_word hfirst]
    exact hvalue (P name) v hword

mutual
/-- A leaf of an element lies below the tuple. -/
theorem typesLeaves_path : ∀ (types : List RustType) (path : List TupleProjectionStep) (index : Nat),
    ∀ d ∈ typesLeaves path index types, ∃ step rest, d.path = path ++ step :: rest
  | [], _, _, _, hd => by cases hd
  | .mk stack base :: types, path, index, d, hd => by
    rcases List.mem_append.mp hd with hd | hd
    · obtain ⟨rest, hrest⟩ := baseLeaves_path base _ d hd
      exact ⟨_, rest, by rw [hrest, List.append_assoc]; rfl⟩
    · exact typesLeaves_path types path (index + 1) d hd

theorem baseLeaves_path : ∀ (base : RustBase) (path : List TupleProjectionStep),
    ∀ d ∈ baseLeaves path base, ∃ rest, d.path = path ++ rest
  | .leaf base, path, d, hd => by
    rw [List.mem_singleton.mp hd]
    exact ⟨[], (List.append_nil path).symm⟩
  | .tuple types, path, d, hd => by
    obtain ⟨step, rest, h⟩ := typesLeaves_path types path 0 d hd
    exact ⟨step :: rest, h⟩
end

/-- A tuple field has a column for every leaf of its tuple. -/
theorem tupleField_leaves {stack : List RawWrapper} {types : List RustType} {analyzed : List AnalyzedType}
    {elements : List TupleElement} {conversion : FieldConversion} {name : String} {fieldIndex : Option Nat}
    {policy : NestedNamePolicy} (hconversion : conversion ≠ .binary) (htypes : analyzeTypes types = .ok analyzed)
    (hreject : rejectWrappedElements name (hasSemanticWrappers (peelTypeWrappers stack).wrappers) analyzed = .ok ())
    (helements : analyzedToTupleElements name analyzed = .ok elements)
    (hproj : FieldIR.Projectable ⟨name, fieldIndex, .tuple elements, normalizeWrappers (peelTypeWrappers stack).wrappers,
      (peelTypeWrappers stack).outerSmartPtrDepth, policy⟩) :
    List.Forall₂ (fun c l => ColumnIR.Of c l ∧ c.Reads l
        ((FieldDecl.mk (.mk stack (.tuple types)) (.include conversion)).Holds name fieldIndex))
      (projectField ⟨name, fieldIndex, .tuple elements, normalizeWrappers (peelTypeWrappers stack).wrappers,
        (peelTypeWrappers stack).outerSmartPtrDepth, policy⟩)
      ((FieldDecl.mk (.mk stack (.tuple types)) (.include conversion)).leaves name fieldIndex) := by
  have hat := projectTupleElements_at ⟨name, fieldIndex, (peelTypeWrappers stack).outerSmartPtrDepth⟩ (columnNameForIdent name)
    (Or.inr (rfl : ([] : List TupleProjectionStep) = [])) 0 elements (hproj.elements elements rfl)
  have hleaves := List.Forall₂.mp (fun c l h h' => And.intro h h') hat (projectField_leaves hproj rfl)
  rw [FieldDecl.leaves, List.forall₂_map_right_iff, baseLeaves]
  refine forall₂_trans hleaves (elementsLeaves_lower [] 0 htypes helements) ?_
  rintro c l hl d hd ⟨hcolumn, href⟩ hlowers
  have hvalue : (FieldLeaf.mk d ⟨name, fieldIndex, outerPointers stack⟩ conversion).value =
      fun P => P (l.path.map TupleProjectionStep.index) := by
    rw [hlowers.path]
    cases conversion with
    | binary => exact absurd rfl hconversion
    | _ => rfl
  refine ⟨⟨?_, hcolumn.path.trans hlowers.path, ?_, ?_⟩, _, _, href.follows, fun P row hrow => ?_⟩
  · rw [hcolumn.root, outerPointers_eq (peelTypeWrappers_of stack)]
  · rw [hcolumn.name, hlowers.path]
  · obtain ⟨step, rest, hpath⟩ := typesLeaves_path types [] 0 d hd
    have hleaf := hlowers.leafSpec
    rw [← hcolumn.leafSpec] at hleaf
    rw [FieldLeaf.leafSpec, hpath]
    exact hleaf
  · obtain ⟨v, hv, hword⟩ := hrow.value
    rw [hvalue]
    refine ⟨v, hv, ?_⟩
    show HasWord _ (normalizeWrappers (peelTypeWrappers stack).wrappers).word v
    rw [normalizeWrappers_word (peelTypeWrappers_of stack).first]
    refine HasWord.mono ?_ hword
    rintro tuple ⟨vs, rfl, hvs⟩
    obtain ⟨rest, hpath, u, hu, hP⟩ := elementsLeaves_reached [] [] vs htypes hreject helements hvs l hl
    have hpath : l.path = rest := hpath
    subst hpath
    exact ⟨u, hu, hP⟩

/-- The columns of a field are its leaves'. -/
theorem lowerField_leaves {decl : FieldDecl} {name : String} {fieldIndex : Option Nat} {field : FieldIR}
    (h : lowerField decl name fieldIndex = .ok (some field)) :
    List.Forall₂ (fun c l => ColumnIR.Of c l ∧ c.Reads l (decl.Holds name fieldIndex)) (projectField field)
      (decl.leaves name fieldIndex) := by
  have hproj := lowerField_projectable h
  obtain ⟨conversion, _, leafSpec, wrappers, policy, hdisposition, hanalyzed, hreject, hleaf, rfl⟩ := lowerField_ok h
  obtain ⟨⟨stack, base⟩, disposition⟩ := decl
  have hdisposition : disposition = .include conversion := hdisposition
  subst hdisposition
  obtain ⟨b, hbase, hok⟩ := bind_eq_ok.mp (show _ = _ from (analyzeType.eq_1 stack base) ▸ hanalyzed)
  cases hok
  cases base with
  | leaf base =>
    cases hbase
    rcases hleaf with ⟨hconversion, hparse, rfl⟩ | ⟨rfl, hbinary⟩
    · refine leafField_leaves (terminal_of_leafBase hparse) (peelTypeWrappers_of stack).first ?_ ?_
      · cases conversion with
        | binary => exact absurd rfl hconversion
        | leafOverride value => exact hparse
        | default => exact hparse
        | «flatten» names => exact hparse
      · intro P v hv
        cases conversion with
        | binary => exact absurd rfl hconversion
        | _ => exact hv
    · obtain ⟨rfl, htrimmed⟩ := parseAsBinaryShape_trimmed hbinary
      have htrimmed : (peelTypeWrappers stack).wrappers = wrappers ++ bytesTail (.leaf base) := htrimmed
      refine leafField_leaves rfl (keepsStack_peel htrimmed).1 rfl ?_
      intro P v hv
      rw [htrimmed, hasWord_append] at hv
      exact hv
  | tuple types =>
    obtain ⟨analyzed, rfl, htypes⟩ := analyzeBaseType_tuple hbase
    rcases hleaf with ⟨hconversion, hparse, rfl⟩ | ⟨rfl, hbinary⟩
    · obtain ⟨_, heq, helements⟩ : ∃ elements, leafSpec = .tuple elements ∧ analyzedToTupleElements name analyzed = .ok elements := by
        cases hoverride : conversion.override? with
        | some value =>
          rw [hoverride] at hparse
          cases hparse
        | none =>
          rw [hoverride] at hparse
          obtain ⟨elements, helements, hok⟩ := bind_eq_ok.mp (show defaultLeafForBase name true (.tuple analyzed) = _ from hparse)
          cases hok
          exact ⟨elements, rfl, helements⟩
      subst heq
      exact tupleField_leaves hconversion htypes hreject helements hproj
    · cases hbinary

/-! ## The columns of a struct -/

/-- A row whose fields are values of the declared types; `P` is what holds of the leaves, by
    the field and the positions. -/
def Fields.Holds (P : String → List Nat → Value → Prop) (row : Value) : Fields → Prop
  | .named fields => ∀ f ∈ fields, f.2.Holds f.1 none P row
  | .unnamed fields => ∀ f ∈ fields.zipIdx, f.1.Holds s!"field_{f.2}" (some f.2) P row
  | .unit => True

theorem skipped_leaves {decl : FieldDecl} {name : String} {fieldIndex : Option Nat}
    (h : lowerField decl name fieldIndex = .ok none) : decl.leaves name fieldIndex = [] := by
  obtain ⟨ty, disposition⟩ := decl
  cases disposition with
  | skip => rfl
  | «include» conversion =>
    obtain ⟨analyzed, -, h⟩ := bind_eq_ok.mp h
    obtain ⟨⟨⟩, -, h⟩ := bind_eq_ok.mp h
    cases conversion with
    | «flatten» names =>
      obtain ⟨⟨⟩, -, h⟩ := bind_eq_ok.mp h
      obtain ⟨leafSpec, -, hok⟩ := bind_eq_ok.mp h
      cases hok
    | binary =>
      obtain ⟨⟨⟩, -, h⟩ := bind_eq_ok.mp h
      obtain ⟨⟨leafSpec, trimmed⟩, -, hok⟩ := bind_eq_ok.mp h
      cases hok
    | default =>
      obtain ⟨leafSpec, -, hok⟩ := bind_eq_ok.mp h
      cases hok
    | leafOverride value =>
      obtain ⟨leafSpec, -, hok⟩ := bind_eq_ok.mp h
      cases hok

/-- The columns of one more field. -/
theorem lowered_leaves {decl : FieldDecl} {name : String} {fieldIndex : Option Nat} {first : Option FieldIR}
    (h : lowerField decl name fieldIndex = .ok first) :
    List.Forall₂ (fun c l => ColumnIR.Of c l ∧ c.Reads l (decl.Holds name fieldIndex))
      (projectFieldsToColumns first.toList) (decl.leaves name fieldIndex) := by
  cases first with
  | none =>
    rw [skipped_leaves h]
    exact .nil
  | some field =>
    show List.Forall₂ _ ([field].flatMap projectField) _
    rw [List.flatMap_singleton]
    exact lowerField_leaves h

theorem projectFieldsToColumns_append (fields rest : List FieldIR) :
    projectFieldsToColumns (fields ++ rest) = projectFieldsToColumns fields ++ projectFieldsToColumns rest :=
  List.flatMap_append

theorem lowerNamedFields_leaves : ∀ {fields : List (String × FieldDecl)} {lowered : List FieldIR},
    lowerNamedFields fields = .ok lowered →
      List.Forall₂ (fun c l => ColumnIR.Of c l ∧ c.Reads l fun P row => (Fields.named fields).Holds P row)
        (projectFieldsToColumns lowered) (Fields.named fields).leaves
  | [], _, h => by
    cases h
    exact .nil
  | (name, decl) :: fields, _, h => by
    obtain ⟨first, hfirst, h⟩ := bind_eq_ok.mp h
    obtain ⟨rest, hrest, hok⟩ := bind_eq_ok.mp h
    cases hok
    rw [projectFieldsToColumns_append]
    refine List.rel_append ((lowered_leaves hfirst).imp fun c l h => ⟨h.1, h.2.mono ?_⟩)
      ((lowerNamedFields_leaves hrest).imp fun c l h => ⟨h.1, h.2.mono ?_⟩)
    · exact fun P row hrow => hrow (name, decl) List.mem_cons_self
    · exact fun P row hrow f hf => hrow f (List.mem_cons_of_mem _ hf)

theorem lowerUnnamedFields_leaves : ∀ {fields : List FieldDecl} {index : Nat} {lowered : List FieldIR},
    lowerUnnamedFields index fields = .ok lowered →
      List.Forall₂ (fun c l => ColumnIR.Of c l ∧ c.Reads l fun P row =>
          ∀ f ∈ fields.zipIdx index, f.1.Holds s!"field_{f.2}" (some f.2) P row)
        (projectFieldsToColumns lowered) ((fields.zipIdx index).flatMap fun f => f.1.leaves s!"field_{f.2}" (some f.2))
  | [], _, _, h => by
    cases h
    exact .nil
  | decl :: fields, index, _, h => by
    obtain ⟨first, hfirst, h⟩ := bind_eq_ok.mp h
    obtain ⟨rest, hrest, hok⟩ := bind_eq_ok.mp h
    cases hok
    rw [projectFieldsToColumns_append, List.zipIdx_cons]
    refine List.rel_append ((lowered_leaves hfirst).imp fun c l h => ⟨h.1, h.2.mono ?_⟩)
      ((lowerUnnamedFields_leaves hrest).imp fun c l h => ⟨h.1, h.2.mono ?_⟩)
    · exact fun P row hrow => hrow (decl, index) List.mem_cons_self
    · exact fun P row hrow f hf => hrow f (List.mem_cons_of_mem _ hf)

theorem lowerFields_leaves {fields : Fields} {lowered : List FieldIR} (h : lowerFields fields = .ok lowered) :
    List.Forall₂ (fun c l => ColumnIR.Of c l ∧ c.Reads l fun P row => fields.Holds P row)
      (projectFieldsToColumns lowered) fields.leaves := by
  cases fields with
  | named fields => exact lowerNamedFields_leaves h
  | unnamed fields => exact lowerUnnamedFields_leaves h
  | unit =>
    cases h
    exact .nil

/-- The name at the end of a path, by its positions. -/
def positionsName (column : String) (positions : List Nat) : String := positions.foldl fieldName column

theorem pathName_positions (column : String) (path : List TupleProjectionStep) :
    pathName column path = positionsName column (path.map TupleProjectionStep.index) :=
  List.foldl_map.symm

/-- The columns of an accepted struct are those of its leaves, in the order of the declaration:
    each is named by the field and the positions on the way, and reads along them, wherever a
    value of the declared type has the leaf. No two columns have the same name or the same
    place, and no assertion of the projection fires. -/
theorem DerivedStruct.columns_leaves (s : DerivedStruct) :
    List.Forall₂ (fun c l => ColumnIR.Of c l ∧ c.Reads l fun P row => s.input.fields.Holds P row) s.ir.columns
      s.input.fields.leaves ∧
    (s.ir.columns.map ColumnIR.name).Nodup ∧
    (s.ir.columns.map fun c => (c.root.name, c.path.map TupleProjectionStep.index)).Nodup ∧
    parseToIrChecked s.input = .ok (.ok s.ir) := by
  have hleaves := lowerFields_leaves s.lowered
  have hnames : (s.ir.columns.map ColumnIR.name).Nodup := by
    have heq : s.ir.columns.map ColumnIR.name = s.refs.map ColumnRef.name := by
      rw [← List.forall₂_eq_eq_eq, List.forall₂_map_left_iff, List.forall₂_map_right_iff]
      exact s.columns_refersTo.imp fun _ _ href => href.name
    rw [heq, List.nodup_iff_pairwise_ne, List.pairwise_map]
    exact s.refs_apart.imp fun hapart heq => hapart.ne (congrArg String.toList heq)
  refine ⟨hleaves, hnames, ?_, ?_⟩
  · refine List.Nodup.of_map (fun place => positionsName (columnNameForIdent place.1) place.2) ?_
    rw [List.map_map]
    have heq : s.ir.columns.map ((fun place => positionsName (columnNameForIdent place.1) place.2) ∘
        fun c => (c.root.name, c.path.map TupleProjectionStep.index)) = s.ir.columns.map ColumnIR.name := by
      refine List.map_congr_left fun c hc => ?_
      obtain ⟨l, -, hof, -⟩ := exists_related hleaves c hc
      show positionsName (columnNameForIdent c.root.name) (c.path.map TupleProjectionStep.index) = c.name
      rw [← pathName_positions, hof.root, hof.path, hof.name]
    rw [heq]
    exact hnames
  · rw [parseToIrChecked, s.lowered, ok_bind, projectFieldsToColumnsChecked_eq (lowerFields_projectable s.lowered)]
    rfl

end DfDerive
