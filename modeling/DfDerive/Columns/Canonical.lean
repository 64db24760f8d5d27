/-
  DfDerive.Columns.Canonical — structs with the same canonical types.

  A row of a struct has a canonical one, of the struct with the canonical types: no pointers,
  and of several `Option`s in a row one.
  - `FieldIR.refs_canonical`: each column of a field leads to the same leaves as the column of
    the canonical field from the canonical row.
  - `DerivedStruct.canonical_agrees`: so the two structs have the same columns.
  - `same_canonical_types`: structs whose types are the same but for pointers and repeated
    `Option`s have the same schema, and the same frames of rows that are the same but for these.
-/

import DfDerive.Columns.Inlined
import DfDerive.Columns.Tuples
import DfDerive.Lower.Canonical

namespace DfDerive

open Lib

/-! ## Canonical values of fields -/

mutual
def LeafSpec.canonicalValue : LeafSpec → Value → Value
  | .tuple elements, .tuple vs => .tuple (canonicalValues elements vs)
  | _, v => v

def TupleElement.canonicalValue : TupleElement → Value → Value
  | .mk leafSpec shape outerSmartPtrDepth, v =>
    canonValue leafSpec.canonicalValue (List.replicate outerSmartPtrDepth .smartPtr ++ shape.word) v

def canonicalValues : List TupleElement → List Value → List Value
  | element :: elements, v :: vs => element.canonicalValue v :: canonicalValues elements vs
  | _, vs => vs
end

def FieldIR.canonicalValue (field : FieldIR) (v : Value) : Value :=
  canonValue field.leafSpec.canonicalValue (List.replicate field.outerSmartPtrDepth .smartPtr ++ field.wrapperShape.word) v

theorem canonValue_pointed (f : Value → Value) (w : List RawWrapper) : ∀ (n : Nat) {v u : Value}, v.derefN n = some u →
    canonValue f (List.replicate n .smartPtr ++ w) v = canonValue f w u
  | 0, _, _, h => by
    cases h
    rfl
  | n + 1, v, u, h => by
    cases v with
    | ptr v => exact canonValue_pointed f w n h
    | _ => cases h

theorem canonicalValues_get {element : TupleElement} : ∀ {elements : List TupleElement} {vs : List Value} {i : Nat},
    elements[i]? = some element → (canonicalValues elements vs)[i]? = (vs[i]?).map element.canonicalValue
  | [], _, _, h => by cases h
  | _ :: _, [], _, _ => rfl
  | e :: _, v :: vs, 0, h => by
    cases h
    rfl
  | e :: elements, v :: vs, i + 1, h => @canonicalValues_get element elements vs i h

/-- An element of the canonical tuple. -/
theorem projectValue_canonical {elements : List TupleElement} {leafSpec : LeafSpec} {shape : WrapperShape} {depth i : Nat}
    (h : elements[i]? = some (.mk leafSpec shape depth)) {t x : Value} (hx : projectValue i depth t = some x) :
    projectValue i 0 (LeafSpec.canonicalValue (.tuple elements) t) = some (canonValue leafSpec.canonicalValue shape.word x) := by
  cases t with
  | tuple vs =>
    obtain ⟨v, hv, hderef⟩ := Option.bind_eq_some_iff.mp hx
    show ((canonicalValues elements vs)[i]?).bind (Value.derefN 0) = _
    rw [canonicalValues_get h, hv]
    exact congrArg some (canonValue_pointed _ _ depth hderef)
  | _ => cases hx

/-! ## Canonical shapes -/

theorem WrapperShape.canonical_word (shape : WrapperShape) : shape.canonical.word = canonWord shape.word :=
  normalizeWrappers_word (canonWord_first shape.word)

theorem WrapperShape.canonical_vecDepth (shape : WrapperShape) : shape.vecDepth = shape.canonical.vecDepth := by
  rw [← WrapperShape.word_countP, ← WrapperShape.word_countP, shape.canonical_word, canonWord_countP]

theorem wordLeafOption_vec (u : List RawWrapper) : ∀ w : List RawWrapper, wordLeafOption (w ++ .vec :: u) = wordLeafOption u
  | [] => rfl
  | .option :: w => by
    rw [List.cons_append, wordLeafOption, wordLeafOption_vec u w]
    simp
  | .smartPtr :: w => wordLeafOption_vec u w
  | .vec :: w => wordLeafOption_vec u w

theorem wordLeafOption_chain : ∀ steps : List AccessStep,
    wordLeafOption (AccessChain.word ⟨steps⟩) = decide (0 < AccessChain.optionLayers ⟨steps⟩)
  | [] => rfl
  | .smartPtr :: steps => by
    rw [AccessChain.optionLayers_cons_smartPtr]
    exact wordLeafOption_chain steps
  | .option :: steps => by
    have hvec : (AccessChain.word ⟨steps⟩).contains .vec = false := by
      rw [contains_vec, AccessChain.word_countP]
      rfl
    rw [AccessChain.optionLayers_cons_option]
    show (!(AccessChain.word ⟨steps⟩).contains .vec || _) = _
    rw [hvec]
    simp

theorem wordLeafOption_layers (u : List RawWrapper) : ∀ layers : List VecLayerSpec,
    wordLeafOption (layers.flatMap VecLayerSpec.word ++ u) = wordLeafOption u
  | [] => rfl
  | l :: layers => by
    rw [List.flatMap_cons, VecLayerSpec.word, List.append_assoc, List.append_assoc, List.singleton_append, wordLeafOption_vec,
      wordLeafOption_layers u layers]

/-- Whether an `Option` lies above the leaf is told by the word. -/
theorem hasLeafOption_word {shape : WrapperShape} (h : shape.Counted) : shape.hasLeafOption = wordLeafOption shape.word := by
  cases shape with
  | leaf s =>
    cases s with
    | bare => rfl
    | optional n access =>
      obtain ⟨rfl, hpos⟩ := h
      show true = wordLeafOption access.word
      rw [wordLeafOption_chain access.steps]
      exact (decide_eq_true hpos).symm
  | vec layers =>
    show decide (0 < layers.innerOptionLayers) = wordLeafOption layers.word
    rw [VecLayers.word, wordLeafOption_layers, wordLeafOption_chain layers.innerAccess.steps]
    exact decide_eq_decide.mpr h.inner

theorem canonical_hasLeafOption {shape : WrapperShape} (h : shape.Counted) :
    shape.canonical.hasLeafOption = shape.hasLeafOption := by
  have hcanonical : shape.canonical.Counted := (normalizeWrappers_normalized (canonWord_first shape.word)).counted
  rw [hasLeafOption_word h, hasLeafOption_word hcanonical, shape.canonical_word, canonWord_leafOption]

theorem carriedOption_eq (above : Bool) (shape : WrapperShape) :
    carriedOption above shape = (shape.hasLeafOption || above && decide (shape.vecDepth = 0)) := by
  cases shape with
  | leaf s => cases above <;> simp [carriedOption, WrapperShape.vecDepth]
  | vec layers => simp [carriedOption, WrapperShape.hasLeafOption, WrapperShape.vecDepth, VecLayers.depth, NonEmpty.len]

theorem canonical_carried (above : Bool) {shape : WrapperShape} (h : shape.Counted) :
    carriedOption above shape.canonical = carriedOption above shape := by
  rw [carriedOption_eq, carriedOption_eq, canonical_hasLeafOption h, ← shape.canonical_vecDepth]

/-! ## The leaves of tuples -/

/-- `l'` is the leaf `l` of the canonical tuples, `g` taking the tuples there. -/
structure ElementLeaf.Canonical (g : Value → Value) (l l' : ElementLeaf) : Prop where
  leaf : l'.leaf = l.leaf
  shape : l'.shape = l.shape.canonical
  counted : l.shape.Counted
  names : ∀ column, pathName column l'.path = pathName column l.path
  value : ∀ t x, pathValue l.path t = some x → pathValue l'.path (g t) = some (canonValue id l.shape.word x)

mutual
theorem elementsLeaves_canonical {g : Value → Value} {path path' : List TupleProjectionStep} {all : List TupleElement}
    (hnames : ∀ column, pathName column path' = pathName column path)
    (hvalue : ∀ t x, pathValue path t = some x → pathValue path' (g t) = some (LeafSpec.canonicalValue (.tuple all) x))
    {bare : Prop} : ∀ (index : Nat) (elements : List TupleElement), all.drop index = elements →
      ElementsProjectable bare elements → List.Forall₂ (ElementLeaf.Canonical g) (elementsLeaves path index elements)
        (elementsLeaves path' index (canonicalElements elements))
  | _, [], _, _ => .nil
  | index, element :: elements, hdrop, h => by
    have helement : all[index]? = some element := by
      rw [← List.head?_drop, hdrop]
      rfl
    have hrest : all.drop (index + 1) = elements := by
      rw [← List.drop_drop, hdrop]
      rfl
    exact List.rel_append (elementLeaves_canonical hnames hvalue index element helement h.1)
      (elementsLeaves_canonical hnames hvalue (index + 1) elements hrest h.2)

theorem elementLeaves_canonical {g : Value → Value} {path path' : List TupleProjectionStep} {all : List TupleElement}
    (hnames : ∀ column, pathName column path' = pathName column path)
    (hvalue : ∀ t x, pathValue path t = some x → pathValue path' (g t) = some (LeafSpec.canonicalValue (.tuple all) x))
    {bare : Prop} (index : Nat) : ∀ element : TupleElement, all[index]? = some element → ElementProjectable bare element →
      List.Forall₂ (ElementLeaf.Canonical g) (elementLeaves path index element) (elementLeaves path' index element.canonical)
  | .mk leafSpec shape depth, helement, h => by
    refine leafLeaves_canonical (fun column => ?_) h.1.counted leafSpec (fun t x hx => ?_) h.2
    · rw [pathName_append, pathName_append, hnames]
    · rw [pathValue_append] at hx ⊢
      obtain ⟨y, hy, hx⟩ := Option.bind_eq_some_iff.mp hx
      rw [hvalue t y hy]
      exact projectValue_canonical helement hx

theorem leafLeaves_canonical {g : Value → Value} {path path' : List TupleProjectionStep}
    (hnames : ∀ column, pathName column path' = pathName column path) {shape : WrapperShape} (hshape : shape.Counted)
    {bare : Prop} : ∀ leafSpec : LeafSpec,
      (∀ t x, pathValue path t = some x → pathValue path' (g t) = some (canonValue leafSpec.canonicalValue shape.word x)) →
        LeafProjectable (bare ∧ shape = .leaf .bare) leafSpec →
          List.Forall₂ (ElementLeaf.Canonical g) (leafLeaves path shape leafSpec)
            (leafLeaves path' shape.canonical leafSpec.canonical)
  | .tuple elements, hvalue, h => by
    obtain ⟨⟨-, rfl⟩, helements⟩ := h
    exact elementsLeaves_canonical hnames hvalue 0 elements rfl helements
  | .numeric _, hvalue, _ | .string, hvalue, _ | .bool, hvalue, _ | .dateTime _, hvalue, _ | .naiveDateTime _, hvalue, _
  | .naiveDate, hvalue, _ | .naiveTime, hvalue, _ | .duration _ _, hvalue, _ | .decimal _ _ _, hvalue, _
  | .asString _, hvalue, _ | .asStr _, hvalue, _ | .binary, hvalue, _ | .struct _, hvalue, _ | .generic _, hvalue, _ =>
    .cons ⟨rfl, rfl, hshape, hnames, hvalue⟩ .nil
end

/-! ## The columns of a field -/

section

variable {rows rows' : List Value} {field : FieldIR}

/-- The second rows have the canonical values of the field. -/
def FieldIR.CanonicalIn (field : FieldIR) (row row' : Value) : Prop :=
  field.canonical.root.raw? row' = (field.root.raw? row).map field.canonicalValue

theorem FieldIR.CanonicalIn.value {row row' : Value} (h : field.CanonicalIn row row') {x : Value}
    (hx : field.root.value? row = some x) :
    field.canonical.root.value? row' = some (canonValue field.leafSpec.canonicalValue field.wrapperShape.word x) := by
  obtain ⟨v, hv, hderef⟩ := Option.bind_eq_some_iff.mp hx
  show (field.canonical.root.raw? row').bind (Value.derefN 0) = _
  rw [h, hv]
  exact congrArg some (canonValue_pointed _ _ _ hderef)

/-- The field leads to its leaves, and to their canonical values. -/
theorem FieldIR.walk_canonical {P : Value → Prop} (h : List.Forall₂ field.CanonicalIn rows rows')
    (ht : ∀ row ∈ rows, field.walk.typed P row) :
    field.walk.Carries field.leafSpec.canonicalValue field.canonical.walk rows rows' :=
  Walk.Carries.step field.wrapperShape.canonical_word field.wrapperShape.canonical_vecDepth
    (h.imp fun _ _ hrow (x : Value) (hx : field.root.value? _ = some x) => hrow.value hx) ht

/-- A leaf of the tuples, and the leaf of the canonical tuples. -/
theorem ElementLeaf.Canonical.walk {g : Value → Value} {l l' : ElementLeaf} (h : l.Canonical g l') {P : Value → Prop}
    {ts : List Value} (ht : ∀ t ∈ ts, l.walk.typed P t) : l.walk.Carries id l'.walk ts (ts.map g) := by
  rw [ElementLeaf.walk, ElementLeaf.walk, h.shape]
  refine Walk.Carries.step l.shape.canonical_word l.shape.canonical_vecDepth ?_ ht
  rw [List.forall₂_map_right_iff, List.forall₂_same]
  exact fun t _ x hx => h.value t x hx

/-- Each column of the field, and the column of the canonical field. -/
theorem FieldIR.refs_canonical (hp : field.Projectable) (hp' : field.canonical.Projectable)
    (h : List.Forall₂ field.CanonicalIn rows rows')
    (ht : ∀ r ∈ field.refs, ∀ row ∈ rows, r.walk.typed (fun _ => True) row) :
    List.Forall₂ (ColumnRef.Alike rows rows') field.refs field.canonical.refs := by
  obtain ⟨name, fieldIndex, leafSpec, shape, depth, policy⟩ := field
  have hcounted : shape.Counted := hp.normalized.counted
  have hterminal : ∀ route, LeafSpec.canonicalValue leafSpec = id →
      (∀ row ∈ rows, (FieldIR.walk ⟨name, fieldIndex, leafSpec, shape, depth, policy⟩).typed (fun _ => True) row) →
        List.Forall₂ (ColumnRef.Alike rows rows')
          [⟨columnNameForIdent name, policy, route, FieldIR.walk ⟨name, fieldIndex, leafSpec, shape, depth, policy⟩,
            shape.hasLeafOption⟩]
          [⟨columnNameForIdent name, policy, route, (FieldIR.canonical ⟨name, fieldIndex, leafSpec, shape, depth, policy⟩).walk,
            shape.canonical.hasLeafOption⟩] := by
    intro route hid htyped
    have hwalk := FieldIR.walk_canonical h htyped
    have hid : (FieldIR.mk name fieldIndex leafSpec shape depth policy).leafSpec.canonicalValue = id := hid
    rw [hid] at hwalk
    exact .cons ⟨rfl, rfl, rfl, (canonical_hasLeafOption hcounted).symm, hwalk.alike⟩ .nil
  cases leafSpec with
  | tuple elements =>
    have helements := hp.elements elements rfl
    have hleaves := @elementsLeaves_canonical (LeafSpec.canonicalValue (.tuple elements)) [] [] elements (fun _ => rfl)
      (fun t x hx => congrArg some (congrArg _ (Option.some.inj hx))) _ 0 elements rfl helements
    show List.Forall₂ _ (elementsRefs _ _ _ 0 elements) (elementsRefs _ _ _ 0 (canonicalElements elements))
    rw [elementsRefs_eq _ _ _ helements, elementsRefs_eq _ _ _ (hp'.elements _ rfl), List.forall₂_map_left_iff,
      List.forall₂_map_right_iff]
    have htyped : ∀ r ∈ elementsRefs _ _ _ 0 elements, ∀ row ∈ rows, r.walk.typed (fun _ => True) row := ht
    rw [elementsRefs_eq _ _ _ helements, List.forall_mem_map] at htyped
    refine ((List.forall₂_and_left _ _).mpr ⟨htyped, hleaves⟩).imp fun l l' hl => ?_
    obtain ⟨htyped, hl⟩ := hl
    have htyped : ∀ row ∈ rows, (FieldIR.walk ⟨name, fieldIndex, .tuple elements, shape, depth, policy⟩).typed
        (l.walk.typed fun _ => True) row := htyped
    have hwalk := FieldIR.walk_canonical h htyped
    have hinner : ∀ t ∈ rows.flatMap (FieldIR.walk ⟨name, fieldIndex, .tuple elements, shape, depth, policy⟩).leaves,
        l.walk.typed (fun _ => True) t := by
      intro t ht
      obtain ⟨row, hrow, ht⟩ := List.mem_flatMap.mp ht
      exact Walk.typed_leaves _ _ row (htyped row hrow) t ht
    refine ⟨(hl.names _).symm, rfl, congrArg TerminalLeafSpec.route hl.leaf.symm, ?_, (hwalk.comp (hl.walk hinner)).alike⟩
    show carriedOption shape.hasLeafOption l.shape = carriedOption shape.canonical.hasLeafOption l'.shape
    rw [hl.shape, canonical_carried _ hl.counted, canonical_hasLeafOption hcounted]
  | numeric _ | string | bool | dateTime _ | naiveDateTime _ | naiveDate | naiveTime | duration _ _ | decimal _ _ _
  | asString _ | asStr _ | binary | struct _ | generic _ => exact hterminal _ rfl (ht _ List.mem_cons_self)

/-- The columns of fields. -/
theorem fieldsRefs_canonical : ∀ {fields : List FieldIR}, (∀ f ∈ fields, f.Projectable) →
    (∀ f ∈ fields.map FieldIR.canonical, f.Projectable) → (∀ f ∈ fields, List.Forall₂ f.CanonicalIn rows rows') →
      (∀ r ∈ fields.flatMap FieldIR.refs, ∀ row ∈ rows, r.walk.typed (fun _ => True) row) →
        List.Forall₂ (ColumnRef.Alike rows rows') (fields.flatMap FieldIR.refs)
          ((fields.map FieldIR.canonical).flatMap FieldIR.refs)
  | [], _, _, _, _ => .nil
  | f :: fields, hp, hp', h, ht => by
    rw [List.flatMap_cons] at ht
    obtain ⟨htf, ht⟩ := List.forall_mem_append.mp ht
    obtain ⟨hpf, hp⟩ := List.forall_mem_cons.mp hp
    obtain ⟨hpf', hp'⟩ := List.forall_mem_cons.mp hp'
    obtain ⟨hf, h⟩ := List.forall_mem_cons.mp h
    exact List.rel_append (FieldIR.refs_canonical hpf hpf' hf htf) (fieldsRefs_canonical hp hp' h ht)

end

/-! ## Structs -/

theorem Fields.identifiers_canonical : ∀ {fields : Fields}, fields.Identifiers → fields.canonical.Identifiers
  | .named fields, h => by
    obtain ⟨hnodup, hdots⟩ := h
    refine ⟨?_, List.forall_mem_map.mpr hdots⟩
    rw [List.map_map]
    exact hnodup
  | .unnamed _, _ | .unit, _ => trivial

namespace DerivedStruct

variable (s : DerivedStruct)

/-- The struct with the canonical types. -/
def canonical : DerivedStruct where
  input := ⟨s.input.ident, s.input.fields.canonical⟩
  identifiers := s.input.fields.identifiers_canonical s.identifiers
  fields := s.fields.map FieldIR.canonical
  lowered := lowerFields_canonical s.lowered

variable {s} {env : Env} {spec : TypePath → RowSpec} {rows rows' : List Value}

theorem canonical_agrees (ht : ∀ row ∈ rows, (structRow env.traits spec s.refs).typed row)
    (h : ∀ f ∈ s.fields, List.Forall₂ f.CanonicalIn rows rows') :
    (structRow env.traits spec s.refs).Agrees (structRow env.traits spec s.canonical.refs) rows rows' := by
  have htyped : ∀ r ∈ s.refs, ∀ row ∈ rows, (r.row env.traits spec).typed row :=
    fun r hr row hrow => structRow_typed.mp (ht row hrow) r hr
  have hrefs := fieldsRefs_canonical (lowerFields_projectable s.lowered) (lowerFields_projectable s.canonical.lowered) h
    fun r hr row hrow => r.walk.typed_mono _ _ row (fun _ _ => trivial) (htyped r hr row hrow)
  exact (ColumnRef.Alike.concat hrefs htyped).structRow

end DerivedStruct

/-! ## Canonical rows -/

/-- The field is the one at this position, or under this name. -/
def FieldIR.reads (field : FieldIR) (index : Nat) (name : String) : Bool :=
  match field.fieldIndex with
  | none => field.name == name
  | some i => i == index

namespace DerivedStruct

variable (s : DerivedStruct)

/-- What the struct's field there takes its value to. -/
def canonicalAt (index : Nat) (name : String) (v : Value) : Value :=
  match s.fields.find? (·.reads index name) with
  | some field => field.canonicalValue v
  | none => v

def canonicalRow : Value → Value
  | .struct entries => .struct (entries.mapIdx fun i e => (e.1, s.canonicalAt i e.1 e.2))
  | v => v

end DerivedStruct

theorem lowerNamedFields_index : ∀ {fields : List (String × FieldDecl)} {lowered : List FieldIR},
    lowerNamedFields fields = .ok lowered → ∀ f ∈ lowered, f.fieldIndex = none
  | [], _, h => by
    cases h
    exact nofun
  | (name, field) :: fields, _, h => by
    obtain ⟨first, hfirst, h⟩ := bind_eq_ok.mp h
    obtain ⟨rest, hrest, hok⟩ := bind_eq_ok.mp h
    cases hok
    refine List.forall_mem_append.mpr ⟨fun f hf => ?_, lowerNamedFields_index hrest⟩
    rw [Option.mem_toList.mp hf] at hfirst
    obtain ⟨_, _, _, _, _, _, _, _, _, rfl⟩ := lowerField_ok hfirst
    rfl

theorem lowerUnnamedFields_index : ∀ {fields : List FieldDecl} {index : Nat} {lowered : List FieldIR},
    lowerUnnamedFields index fields = .ok lowered → ∀ f ∈ lowered, ∃ i, f.fieldIndex = some i ∧ f.name = s!"field_{i}"
  | [], _, _, h => by
    cases h
    exact nofun
  | field :: fields, index, _, h => by
    obtain ⟨first, hfirst, h⟩ := bind_eq_ok.mp h
    obtain ⟨rest, hrest, hok⟩ := bind_eq_ok.mp h
    cases hok
    refine List.forall_mem_append.mpr ⟨fun f hf => ?_, lowerUnnamedFields_index hrest⟩
    rw [Option.mem_toList.mp hf] at hfirst
    obtain ⟨_, _, _, _, _, _, _, _, _, rfl⟩ := lowerField_ok hfirst
    exact ⟨index, rfl, rfl⟩

/-- Looking up in a list mapped entry by entry. -/
theorem find_mapIdx {k : String} {c : Value → Value} : ∀ {entries : List (String × Value)}
    {h : Nat → String × Value → String × Value}, (∀ i e, (h i e).1 = e.1) → (∀ i e, e.1 = k → (h i e).2 = c e.2) →
      ((entries.mapIdx h).find? (·.1 == k)).map (·.2) = ((entries.find? (·.1 == k)).map (·.2)).map c
  | [], _, _, _ => rfl
  | e :: entries, h, hkey, hvalue => by
    rw [List.mapIdx_cons]
    by_cases hk : e.1 = k
    · rw [List.find?_cons_of_pos (by simp [hkey, hk]), List.find?_cons_of_pos (by simp [hk])]
      exact congrArg some (hvalue 0 e hk)
    · rw [List.find?_cons_of_neg (by simp [hkey, hk]), List.find?_cons_of_neg (by simp [hk])]
      exact find_mapIdx (fun i => hkey (i + 1)) fun i => hvalue (i + 1)

namespace DerivedStruct

variable (s : DerivedStruct)

/-- Fields read at one place are one field. -/
theorem reads_unique {f g : FieldIR} (hf : f ∈ s.fields) (hg : g ∈ s.fields) {index : Nat} {name : String}
    (hfr : f.reads index name = true) (hgr : g.reads index name = true) : f = g := by
  have hnames : f.name = g.name := by
    have hlowered := s.lowered
    cases hfields : s.input.fields with
    | named fields =>
      rw [hfields] at hlowered
      simp only [FieldIR.reads, lowerNamedFields_index hlowered f hf] at hfr
      simp only [FieldIR.reads, lowerNamedFields_index hlowered g hg] at hgr
      rw [eq_of_beq hfr, eq_of_beq hgr]
    | unnamed fields =>
      rw [hfields] at hlowered
      obtain ⟨i, hi, hfname⟩ := lowerUnnamedFields_index hlowered f hf
      obtain ⟨j, hj, hgname⟩ := lowerUnnamedFields_index hlowered g hg
      simp only [FieldIR.reads, hi] at hfr
      simp only [FieldIR.reads, hj] at hgr
      rw [hfname, hgname, eq_of_beq hfr, eq_of_beq hgr]
    | unit =>
      rw [hfields] at hlowered
      rw [← Except.ok.inj hlowered] at hf
      cases hf
  exact List.inj_on_of_nodup_map (lowerFields_names s.identifiers s.lowered) hf hg hnames

theorem canonicalAt_eq {f : FieldIR} (hf : f ∈ s.fields) {index : Nat} {name : String} (h : f.reads index name = true)
    (v : Value) : s.canonicalAt index name v = f.canonicalValue v := by
  unfold canonicalAt
  cases hfind : s.fields.find? (·.reads index name) with
  | none => exact absurd h (List.find?_eq_none.mp hfind f hf)
  | some g =>
    have hgr := List.find?_some (p := fun f : FieldIR => f.reads index name) hfind
    rw [s.reads_unique hf (List.mem_of_find?_eq_some hfind) h hgr]

/-- Every row has a canonical one. -/
theorem canonicalIn_canonicalRow {f : FieldIR} (hf : f ∈ s.fields) (row : Value) : f.CanonicalIn row (s.canonicalRow row) := by
  cases row with
  | struct entries =>
    cases hindex : f.fieldIndex with
    | none =>
      have hraw : ∀ es, f.root.raw? (.struct es) = (es.find? (·.1 == f.name)).map (·.2) := by
        intro es
        simp only [FieldSource.raw?, FieldIR.root, hindex]
      have hraw' : ∀ es, f.canonical.root.raw? (.struct es) = (es.find? (·.1 == f.name)).map (·.2) := hraw
      rw [FieldIR.CanonicalIn, canonicalRow, hraw, hraw']
      refine find_mapIdx (fun _ _ => rfl) fun i e he => s.canonicalAt_eq hf ?_ e.2
      simp only [FieldIR.reads, hindex, he, beq_self_eq_true]
    | some i =>
      have hraw : ∀ es, f.root.raw? (.struct es) = (es[i]?).map (·.2) := by
        intro es
        simp only [FieldSource.raw?, FieldIR.root, hindex]
      have hraw' : ∀ es, f.canonical.root.raw? (.struct es) = (es[i]?).map (·.2) := hraw
      rw [FieldIR.CanonicalIn, canonicalRow, hraw, hraw', List.getElem?_mapIdx, Option.map_map, Option.map_map]
      refine Option.map_congr fun e _ => s.canonicalAt_eq hf ?_ e.2
      simp only [FieldIR.reads, hindex, beq_self_eq_true]
  | _ => rfl

/-- The rows of the two structs are the same but for pointers and repeated `Option`s. -/
def SameRow (s s' : DerivedStruct) (row row' : Value) : Prop :=
  ∀ f ∈ s.fields, ∀ f' ∈ s'.fields, f.canonical = f'.canonical →
    (f.root.raw? row).map f.canonicalValue = (f'.root.raw? row').map f'.canonicalValue

end DerivedStruct

theorem RowSpec.Agrees.symm {a b : RowSpec} {rows rows' : List Value} (h : a.Agrees b rows rows')
    (ht : ∀ row ∈ rows, a.typed row) : b.Agrees a rows' rows :=
  ⟨h.contents.symm, ht, h.valid.symm, h.accepts.symm⟩

/-- Structs whose field types are the same but for pointers and repeated `Option`s have the same
    schema, and convert rows that are the same but for these alike. -/
theorem same_canonical_types (s s' : DerivedStruct) (h : s.input.fields.canonical = s'.input.fields.canonical) {env : Env}
    {spec : TypePath → RowSpec} (hm : ∀ ty, Models (env.impl ty) (spec ty)) (name name' : String) {rows rows' : List Value}
    (ht : ∀ row ∈ rows, (structRow env.traits spec s.refs).typed row)
    (ht' : ∀ row' ∈ rows', (structRow env.traits spec s'.refs).typed row') (hrows : List.Forall₂ (s.SameRow s') rows rows') :
    (generateImpl env s.ir name).Agree (generateImpl env s'.ir name') rows rows' := by
  have hfields : s.fields.map FieldIR.canonical = s'.fields.map FieldIR.canonical := by
    have hlowered := lowerFields_canonical s.lowered
    rw [h, lowerFields_canonical s'.lowered] at hlowered
    exact (Except.ok.inj hlowered).symm
  -- both structs are compared with the canonical one, on the canonical rows of the second
  have hcanonical : ∀ f ∈ s.fields, List.Forall₂ f.CanonicalIn rows (rows'.map s'.canonicalRow) := by
    intro f hf
    obtain ⟨f', hf', hsame⟩ := List.mem_map.mp (hfields ▸ List.mem_map_of_mem hf)
    rw [List.forall₂_map_right_iff]
    refine hrows.imp fun row row' hrow => ?_
    rw [FieldIR.CanonicalIn, hrow f hf f' hf' hsame.symm, ← hsame]
    exact s'.canonicalIn_canonicalRow hf' row'
  have hcanonical' : ∀ f' ∈ s'.fields, List.Forall₂ f'.CanonicalIn rows' (rows'.map s'.canonicalRow) := by
    intro f' hf'
    rw [List.forall₂_map_right_iff, List.forall₂_same]
    exact fun row' _ => s'.canonicalIn_canonicalRow hf' row'
  have hrefs : s.canonical.refs = s'.canonical.refs := congrArg (List.flatMap FieldIR.refs) hfields
  have hagrees := DerivedStruct.canonical_agrees ht hcanonical
  have hagrees' := DerivedStruct.canonical_agrees ht' hcanonical'
  rw [hrefs] at hagrees
  have hs : Models (generateImpl env s.ir name) (structRow env.traits spec s.refs) := generateImpl_models (s.refersTo hm)
  have hs' : Models (generateImpl env s'.ir name') (structRow env.traits spec s'.refs) := generateImpl_models (s'.refersTo hm)
  exact hs.agree_all hs' (hagrees.trans (hagrees'.symm ht')) hrows.length_eq ht

/-- `struct Log { tags: Option<Box<Option<Vec<i64>>>> }` -/
def boxedLog : DerivedStruct where
  input := ⟨"Log", .named [("tags", ⟨.mk [.option, .smartPtr, .option, .vec] (.leaf (.numeric .i64)), .include .default⟩)]⟩
  identifiers := ⟨List.nodup_singleton _, by decide⟩
  fields := [⟨"tags", none, .numeric .i64, normalizeWrappers [.option, .smartPtr, .option, .vec], 0, .field⟩]
  lowered := rfl

/-- `struct Log { tags: Arc<Option<Vec<Box<i64>>>> }` -/
def sharedLog : DerivedStruct where
  input := ⟨"Log", .named [("tags", ⟨.mk [.smartPtr, .option, .vec, .smartPtr] (.leaf (.numeric .i64)), .include .default⟩)]⟩
  identifiers := ⟨List.nodup_singleton _, by decide⟩
  fields := [⟨"tags", none, .numeric .i64, normalizeWrappers [.option, .vec, .smartPtr], 1, .field⟩]
  lowered := rfl

def boxedRows : List Value :=
  [.struct [("tags", .some (.ptr (.some (.vec [.scalar (.int 1), .scalar (.int 2)]))))], .struct [("tags", .some (.ptr .none))]]

def sharedRows : List Value :=
  [.struct [("tags", .ptr (.some (.vec [.ptr (.scalar (.int 1)), .ptr (.scalar (.int 2))])))], .struct [("tags", .ptr .none)]]

/-- Both logs have one list, and one null. -/
theorem same_canonical_types_log :
    ∃ df df', (generateImpl pinEnv boxedLog.ir "Log").columnarFromRefs boxedRows = .ok df ∧
      (generateImpl pinEnv sharedLog.ir "Log").columnarFromRefs sharedRows = .ok df' ∧ df.Same df' ∧
      df.cells = [[.list [.val (.int 1), .val (.int 2)], .null]] := by
  have htyped : ∀ n : Int, LeafTyped (.numeric .i64) (.scalar (.int n)) := fun n => Or.inl ⟨n, rfl, nofun⟩
  have ht : ∀ row ∈ boxedRows, (structRow brokenTraits (fun _ => pointTree.spec brokenTraits) boxedLog.refs).typed row := by
    refine List.forall_mem_cons.mpr ⟨⟨⟨_, rfl, ?_⟩, trivial⟩, List.forall_mem_singleton.mpr ⟨⟨_, rfl, trivial⟩, trivial⟩⟩
    exact List.forall_mem_cons.mpr ⟨htyped 1, List.forall_mem_singleton.mpr (htyped 2)⟩
  have ht' : ∀ row ∈ sharedRows, (structRow brokenTraits (fun _ => pointTree.spec brokenTraits) sharedLog.refs).typed row := by
    refine List.forall_mem_cons.mpr ⟨⟨⟨_, rfl, ?_⟩, trivial⟩, List.forall_mem_singleton.mpr ⟨⟨_, rfl, trivial⟩, trivial⟩⟩
    exact List.forall_mem_cons.mpr ⟨htyped 1, List.forall_mem_singleton.mpr (htyped 2)⟩
  have hrows : List.Forall₂ (boxedLog.SameRow sharedLog) boxedRows sharedRows := by
    refine .cons (fun f hf f' hf' _ => ?_) (.cons (fun f hf f' hf' _ => ?_) .nil)
    · rw [List.mem_singleton.mp hf, List.mem_singleton.mp hf']
      rfl
    · rw [List.mem_singleton.mp hf, List.mem_singleton.mp hf']
      rfl
  obtain ⟨df, hdf, hcells⟩ := Run.ok_of_map (r := (generateImpl pinEnv boxedLog.ir "Log").columnarFromRefs boxedRows)
    (f := DataFrame.cells) (b := [[.list [.val (.int 1), .val (.int 2)], .null]]) rfl
  rcases (@same_canonical_types boxedLog sharedLog rfl pinEnv (fun _ => pointTree.spec brokenTraits)
    (fun _ => pointTree.models brokenTraits) "Log" "Log" _ _ ht ht' hrows).columnarFromRefs with ⟨a, b, ha, hb, hsame⟩ | ⟨e, _, he, -⟩
  · cases hdf.symm.trans ha
    exact ⟨df, b, hdf, hb, hsame, hcells⟩
  · cases hdf.symm.trans he

end DfDerive
