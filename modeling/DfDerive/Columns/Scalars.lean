/-
  DfDerive.Columns.Scalars — columns of primitive leaves below `Option`s and pointers alone.

  Such a column has one cell a row: the encoding of the row's value when every `Option` on
  the way to it is there, null otherwise (`fieldColumn_cells`). The arms that fill it, by
  pushing a value, by writing bits at the row's index, or by collecting `Option`s, run in
  step with one loop over the values (`leafColumn`), which has no scratch buffer.
-/

import DfDerive.Columns.Leaves
import DfDerive.Columns.Times

namespace DfDerive

open Lib

/-! ## Arms -/

/-- What a row stores: the encoding of its value, or a null. -/
def storedValue (tr : Traits) (leaf : PrimitiveLeaf) : Option Value → Run (Option Prim)
  | none => .ok none
  | some u => do .ok (some (← leaf.encode tr u))

/-- The column of the values of the rows. -/
def leafColumn (tr : Traits) (leaf : PrimitiveLeaf) (name : String) (xs : List (Option Value)) : Run Series := do
  let ys ← xs.mapM (storedValue tr leaf)
  .ok (.ofCells name leaf.dtype (ys.map fun y => Series.castCell leaf.dtype (primCell y)))

/-- The arm's loop ends in the error of the column of the values, or in a series with its
    name, dtype and cells. -/
def LeafArm.Computes (arm : LeafArm) (tr : Traits) (leaf : PrimitiveLeaf) (name : String) (items : List Operand)
    (xs : List (Option Value)) : Prop :=
  Lockstep (fun column out => ∃ s, out = [s] ∧ s.name = column.name ∧ s.dtype = column.dtype ∧ s.cells = column.cells)
    (leafColumn tr leaf name xs) (arm.runBlock name items)

section
variable {tr : Traits} {leaf : PrimitiveLeaf}

theorem Pushes.lockstep {σ : Type} {r : Run σ} {x : Option Value} {Q : σ → Option Prim → Prop}
    (h : Pushes tr leaf r x Q) : Lockstep (fun y s => Q s y) (storedValue tr leaf x) r := by
  cases x with
  | none =>
    obtain ⟨s, hs, hq⟩ := h.2 none (by simp) (fun _ => rfl)
    exact .inr ⟨none, s, rfl, hs, hq⟩
  | some u =>
    rw [storedValue]
    cases hu : leaf.encode tr u with
    | error e => exact .inl ⟨e, rfl, h.1 u e rfl hu⟩
    | ok p =>
      obtain ⟨s, hs, hq⟩ := h.2 (some p) (fun v hv => Option.some.inj hv ▸ ⟨hu, rfl⟩) nofun
      exact .inr ⟨some p, s, rfl, hs, hq⟩

variable {arm : LeafArm} {name : String} {item : Operand → Option Value} {items : List Operand}

/-- The pushes of the rows from `rest` on, after the stored values `ys`. -/
theorem pushes_lockstep {Abs : LeafBufs → List (Option Prim) → Prop}
    (hpush : ∀ s xs it, it ∈ items → xs.length < items.length → Abs s xs →
      Pushes tr leaf (arm.push s it) (item it) (fun s y => Abs s (xs ++ [y]))) :
    ∀ (rest : List Operand) (ys : List (Option Prim)) (s : LeafBufs), (∀ it ∈ rest, it ∈ items) →
      ys.length + rest.length = items.length → Abs s ys →
        Lockstep (fun zs t => zs.length = rest.length ∧ Abs t (ys ++ zs)) ((rest.map item).mapM (storedValue tr leaf))
          (rest.foldlM arm.push s) := by
  intro rest
  induction rest with
  | nil =>
    intro ys s _ _ hs
    exact .pure ⟨rfl, by simpa using hs⟩
  | cons it rest ih =>
    intro ys s hmem hlen hs
    rw [List.length_cons] at hlen
    rw [List.map_cons, List.mapM_cons, List.foldlM_cons]
    refine .bind (hpush s ys it (hmem it List.mem_cons_self) (by omega) hs).lockstep fun y t ht => ?_
    have hrest := ih (ys ++ [y]) t (fun o ho => hmem o (List.mem_cons_of_mem _ ho))
      (by rw [List.length_append, List.length_singleton]; omega) ht
    rcases hrest with ⟨e, hl, hr⟩ | ⟨zs, u, hl, hr, hzs, hu⟩
    · rw [hl, hr]
      exact .inl ⟨e, rfl, rfl⟩
    · rw [hl, hr]
      refine .inr ⟨y :: zs, u, rfl, rfl, by rw [List.length_cons, List.length_cons, hzs], ?_⟩
      rwa [List.append_assoc] at hu

theorem ArmRuns.computes (h : ArmRuns tr leaf arm name item items) :
    arm.Computes tr leaf name items (items.map item) := by
  obtain ⟨Abs, h0, hpush, hseries⟩ := h
  refine .bind (pushes_lockstep hpush items [] _ (fun _ h => h) (Nat.zero_add _) h0) fun ys s ⟨hlen, hs⟩ => ?_
  obtain ⟨out, hout, hname, hdtype, hcells⟩ := hseries s ys hlen hs
  rw [hout]
  exact .pure ⟨_, rfl, rfl, hdtype, hcells⟩

end

/-! ## The scratch buffer -/

/-- Locals that differ in the scratch buffer at most. -/
def LeafBufs.Alike (s t : LeafBufs) : Prop := { s with scratch := "" } = { t with scratch := "" }

theorem LeafBufs.Alike.eq {s t : LeafBufs} (h : s.Alike t) : t = { s with scratch := t.scratch } := by
  obtain ⟨buf, options, bits, validity, rowIdx, scratch⟩ := s
  obtain ⟨buf', options', bits', validity', rowIdx', scratch'⟩ := t
  cases h
  rfl

/-- What the scratch buffer holds when a row is pushed is lost: it is cleared before a value is
    displayed, and a null row leaves it alone. -/
theorem asStringLeaf_scratch (ctx : LeafCtx) (kind : LeafArmKind) {s t : LeafBufs} (h : s.Alike t) (it : Operand) :
    Lockstep LeafBufs.Alike ((asStringLeaf ctx kind).push s it) ((asStringLeaf ctx kind).push t it) := by
  rw [h.eq]
  generalize t.scratch = text
  have same {α : Type} (r : Run α) : Lockstep (· = ·) r r := by
    cases r with
    | error e => exact .inl ⟨e, rfl, rfl⟩
    | ok a => exact .pure rfl
  cases kind with
  | bare =>
    refine .bind (same (ctx.access it)) fun o _ ho => ?_
    subst ho
    refine .bind (same (do
      let text ← displayInto ctx.traits "" (← (Operand.ref o).value)
      Except.ok (Prim.str text, text))) fun p _ hp => ?_
    subst hp
    exact .pure rfl
  | option receiver =>
    refine .bind (same (ctx.access it)) fun o _ ho => ?_
    subst ho
    refine .bind (same (matchRef o fun v => do
      let text ← displayInto ctx.traits "" (← v.value)
      Except.ok (Prim.str text, text))) fun x _ hx => ?_
    subst hx
    cases x with
    | some p => exact .pure rfl
    | none => exact .bind (same (bitmapSet s.validity s.rowIdx false)) fun _ _ hbits => .pure (by subst hbits; rfl)

/-- So a loop does not depend on what the buffer held before it. -/
theorem asStringLeaf_scratch_rows (ctx : LeafCtx) (kind : LeafArmKind) {s t : LeafBufs} (h : s.Alike t)
    (rows : List Operand) :
    Lockstep (fun a b => a.Alike b ∧ (asStringLeaf ctx kind).series a = (asStringLeaf ctx kind).series b)
      (rows.foldlM (asStringLeaf ctx kind).push s) (rows.foldlM (asStringLeaf ctx kind).push t) := by
  have hloop := Lockstep.foldlM rows [] s t (R := fun _ a b => a.Alike b)
    (fun _ it _ a b _ hab => asStringLeaf_scratch ctx kind hab it) h
  rcases hloop with ⟨e, hs, ht⟩ | ⟨a, b, hs, ht, hab⟩
  · exact .inl ⟨e, hs, ht⟩
  · refine .inr ⟨a, b, hs, ht, hab, ?_⟩
    rw [hab.eq]
    cases kind <;> rfl

/-! ## Ways without lists -/

/-- The walk passes no list: it leads to the value `value` finds, or to none. -/
structure Walk.Scalar (w : Walk) (value : Value → Option Value) : Prop where
  depth : w.depth = 0
  fits : ∀ vs, w.fits (fun _ => True) vs
  leaves : ∀ P v, w.typed P v → w.leaves v = (value v).toList
  cell : ∀ P v, w.typed P v → ∀ f, w.cell f v = (value v).elim .null f

theorem Walk.Scalar.read (f : Value → Option Value) : (Walk.read f).Scalar f where
  depth := rfl
  fits _ := trivial
  leaves P v h := by
    obtain ⟨x, hx, -⟩ := h
    show [(f v).getD .none] = _
    rw [hx]
    rfl
  cell P v h g := by
    obtain ⟨x, hx, -⟩ := h
    show g ((f v).getD .none) = _
    rw [hx]
    rfl

theorem Walk.Scalar.word (s : LeafShape) : (Walk.word (.leaf s)).Scalar (chainFold s.access.steps) where
  depth := rfl
  fits vs := by
    show FitsWord i64Max _ s.word vs
    rw [← s.word_access, fitsWord_chain_nil]
    trivial
  leaves P v h := by
    show leavesOf s.word v = _
    rw [← s.word_access]
    exact leavesOf_chain _ v
  cell P v h f := by
    have hword : HasWord P s.word v := h
    rw [← s.word_access] at hword
    show cellOf f s.word v = _
    rw [← s.word_access]
    exact cellOf_chain f hword

theorem Walk.Scalar.comp {a b : Walk} {f g : Value → Option Value} (ha : a.Scalar f) (hb : b.Scalar g) :
    (a.comp b).Scalar fun v => (f v).bind g where
  depth := by
    show a.depth + b.depth = 0
    rw [ha.depth, hb.depth]
  fits vs := by
    show a.fits (b.fits fun _ => True) vs
    rw [a.fits_iff]
    exact ⟨ha.fits vs, hb.fits _⟩
  leaves P v h := by
    have htyped := a.typed_leaves _ v h
    show (a.leaves v).flatMap b.leaves = _
    rw [ha.leaves _ v h] at htyped ⊢
    cases hf : f v with
    | none => rfl
    | some u =>
      rw [hf] at htyped
      rw [Option.toList_some, List.flatMap_singleton, hb.leaves P u (htyped u List.mem_cons_self)]
      rfl
  cell P v h c := by
    have htyped := a.typed_leaves _ v h
    show a.cell (b.cell c) v = _
    rw [ha.leaves _ v h] at htyped
    rw [ha.cell _ v h]
    cases hf : f v with
    | none => rfl
    | some u =>
      rw [hf] at htyped
      exact hb.cell P u (htyped u List.mem_cons_self) c

/-- A value of the leaf's type; a time of day is no leap second. -/
def PlainLeaf (leaf : PrimitiveLeaf) (v : Value) : Prop :=
  LeafTyped leaf v ∧ (leaf = .naiveTime → ∀ secs nanos, v = .scalar (.time secs nanos) → secs < 86400 ∧ nanos < 1000000000)

theorem eq_naiveTime {leaf : PrimitiveLeaf} (h : leaf.dtype = .time) : leaf = .naiveTime := by
  cases leaf with
  | naiveTime => rfl
  | numeric kind => cases kind <;> cases h
  | _ => cases h

/-- The cell of a leaf without lists is the one it has as the element of a list. -/
theorem PlainLeaf.columnCell_eq {leaf : PrimitiveLeaf} {v : Value} (h : PlainLeaf leaf v) (tr : Traits) (depth : Nat) :
    columnCell tr leaf depth v = leafCell tr leaf v := by
  by_cases hleaf : leaf = .naiveTime
  · subst hleaf
    obtain ⟨⟨secs, nanos, rfl⟩, hplain⟩ := h
    obtain ⟨hsecs, hnanos⟩ := hplain rfl secs nanos rfl
    have htime : ¬ NaiveTime.PastMidnight ⟨secs, nanos, hsecs, by omega⟩ := by
      simp only [NaiveTime.PastMidnight]
      omega
    have hcells := ((NaiveTime.inDomain_iff tr _).mpr htime).cells
    cases depth with
    | zero => exact hcells 0
    | succ _ => rfl
  · exact congrFun (columnCell_of_ne (fun hd => hleaf (eq_naiveTime hd)) depth) v

/-- A column without lists: a row's cell is the encoding of the value found there, or null. -/
def ColumnIR.HasScalars (c : ColumnIR) (leaf : PrimitiveLeaf) (typed : (Value → Prop) → Value → Prop)
    (value : Value → Option Value) : Prop :=
  ∀ (env : Env) (items : List Operand), RowItems items → (∀ it ∈ items, typed (PlainLeaf leaf) it.erase) →
    Run.Spec (c.run env items) (∀ it ∈ items, ∀ u, value it.erase = some u → Encodes env.traits leaf u) fun out =>
      ∃ s, out = [s] ∧ s.name = c.name ∧ s.dtype = leaf.dtype ∧
        s.cells = items.map fun it => (value it.erase).elim .null (leafCell env.traits leaf)

theorem ColumnIR.Follows.hasScalars {c : ColumnIR} {w : Walk} {carried : Bool} {leaf : PrimitiveLeaf}
    {value : Value → Option Value} (h : c.Follows w carried) (hroute : c.leafSpec.route = .primitive leaf)
    (hw : w.Scalar value) : c.HasScalars leaf w.typed value := by
  intro env items hrows ht
  have htyped : ∀ it ∈ items, w.typed (LeafTyped leaf) it.erase :=
    fun it hit => w.typed_mono _ _ _ (fun _ hu => hu.1) (ht it hit)
  have hvalues : ∀ it ∈ items, w.leaves it.erase = (value it.erase).toList := fun it hit => hw.leaves _ _ (ht it hit)
  refine Runs.congr (Runs.mono (h.run_primitive env hroute hrows htyped) ?_) ?_
  · rintro - out ⟨s, hout, hname, hdtype, hcells⟩
    rw [hw.depth] at hdtype hcells
    refine ⟨s, hout, hname, hdtype, ?_⟩
    rw [hcells, List.map_map]
    refine List.map_congr_left fun it hit => ?_
    show w.cell (columnCell env.traits leaf 0) it.erase = _
    rw [← hw.cell _ _ (ht it hit)]
    exact w.cell_congr _ _ _ fun u hu => (w.typed_leaves _ _ (ht it hit) u hu).columnCell_eq env.traits 0
  · rw [w.fits_iff]
    constructor
    · rintro ⟨-, hall⟩ it hit u hu
      refine hall u (List.mem_flatMap.mpr ⟨it.erase, List.mem_map_of_mem hit, ?_⟩)
      rw [hvalues it hit, hu]
      exact List.mem_singleton.mpr rfl
    · intro hall
      refine ⟨hw.fits _, fun u hu => ?_⟩
      obtain ⟨v, hv, hu⟩ := List.mem_flatMap.mp hu
      obtain ⟨it, hit, rfl⟩ := List.mem_map.mp hv
      rw [hvalues it hit, Option.mem_toList] at hu
      exact hall it hit u hu

/-! ## Fields -/

section
variable {field : FieldIR} {leaf : PrimitiveLeaf} {s : LeafShape}

/-- A field below `Option`s and pointers has one column. -/
theorem leafField_hasScalars (h : field.Projectable) (hleaf : field.leafSpec.terminalRoute = some (.primitive leaf))
    (hshape : field.wrapperShape = .leaf s) :
    ∃ c, projectField field = [c] ∧ c.HasScalars leaf field.walk.typed
      fun row => (field.root.value? row).bind (chainFold s.access.steps) := by
  obtain ⟨name, fieldIndex, leafSpec, shape, outerSmartPtrDepth, policy⟩ := field
  obtain rfl : shape = .leaf s := hshape
  have hleaf : leafSpec.terminalRoute = some (.primitive leaf) := hleaf
  have hterminal : leafSpec.terminalRoute.isSome = true := by rw [hleaf]; rfl
  refine ⟨.field ⟨⟨columnNameForIdent name, ⟨leafSpec, hterminal⟩, policy⟩, ⟨name, fieldIndex, outerSmartPtrDepth⟩, .leaf s⟩, ?_, ?_⟩
  · exact projectField_terminal hterminal
  · refine (follows_field _ h.normalized.counted).hasScalars ?_ ((Walk.Scalar.read _).comp (.word s))
    simp [ColumnIR.leafSpec, ColumnIR.common, TerminalLeafSpec.route, hleaf]

/-- A leaf of a tuple, the tuple and the leaf below `Option`s and pointers, has one column. -/
theorem tupleField_hasScalars (h : field.Projectable) {elements : List TupleElement}
    (htuple : field.leafSpec = .tuple elements) (hshape : field.wrapperShape = .leaf s) :
    List.Forall₂ (fun c l => ∀ leaf e, l.leaf.route = .primitive leaf → l.shape = .leaf e →
      c.HasScalars leaf (field.ProjectedTyped l) fun row =>
        ((field.root.value? row).bind (chainFold s.access.steps)).bind fun tuple =>
          (pathValue l.path tuple).bind (chainFold e.access.steps)) (projectField field) (elementsLeaves [] 0 elements) := by
  refine (projectField_leaves h htuple).imp fun c l hc leaf e hroute he => ?_
  have hwalk : (field.leafWalk l).Scalar fun row =>
      ((field.root.value? row).bind (chainFold s.access.steps)).bind fun tuple =>
        (pathValue l.path tuple).bind (chainFold e.access.steps) := by
    rw [FieldIR.leafWalk, FieldIR.walk, ElementLeaf.walk, hshape, he]
    exact ((Walk.Scalar.read _).comp (.word s)).comp ((Walk.Scalar.read _).comp (.word e))
  exact hc.follows.hasScalars (hc.route.trans hroute) hwalk

end

/-- The cells of a field's column, below any wrappers. -/
theorem fieldColumn_cells {column : FieldColumn} {leaf : PrimitiveLeaf} {ws : List RawWrapper}
    (hroute : column.leafSpec.route = .primitive leaf) (hfirst : ∀ ws', ws ≠ .smartPtr :: ws')
    (hshape : column.wrapperShape = normalizeWrappers ws) (env : Env) {items : List Operand} (hrows : RowItems items)
    {vs : List Value} (hvs : items.map (fun it => column.source.value? it.erase) = vs.map some)
    (ht : ∀ v ∈ vs, HasWord (PlainLeaf leaf) ws v) :
    Run.Spec ((ColumnIR.field column).run env items) (FitsWord i64Max (AllEncode env.traits leaf) ws vs) fun out =>
      ∃ s, out = [s] ∧ s.cells = vs.map (cellOf (leafCell env.traits leaf) ws) := by
  have hword := normalizeWrappers_word hfirst
  have hread : (items.map Operand.erase).map (fun v => (column.source.value? v).getD .none) = vs := by
    have := congrArg (List.map (Option.getD · Value.none)) hvs
    simpa [List.map_map, Function.comp_def] using this
  have hvalue : ∀ it ∈ items, ∃ v ∈ vs, column.source.value? it.erase = some v := by
    intro it hit
    have hmem : column.source.value? it.erase ∈ vs.map some := hvs ▸ List.mem_map_of_mem hit
    obtain ⟨v, hv, h⟩ := List.mem_map.mp hmem
    exact ⟨v, hv, h.symm⟩
  have hcounted : column.wrapperShape.Counted := hshape ▸ (normalizeWrappers_normalized hfirst).counted
  have hrun := (follows_field column hcounted).run_primitive env hroute hrows fun it hit => by
    obtain ⟨v, hv, h⟩ := hvalue it hit
    refine ⟨v, h, ?_⟩
    show HasWord _ column.wrapperShape.word v
    rw [hshape, hword]
    exact HasWord.mono (fun _ hu => hu.1) (ht v hv)
  refine Runs.congr (Runs.mono hrun ?_) ?_
  · rintro - out ⟨s, hout, -, -, hcells⟩
    refine ⟨s, hout, ?_⟩
    have hcell : ∀ v ∈ vs, cellOf (columnCell env.traits leaf ((Walk.read column.source.value?).comp (.word column.wrapperShape)).depth)
        column.wrapperShape.word v = cellOf (leafCell env.traits leaf) ws v := by
      intro v hv
      rw [hshape, hword]
      exact cellOf_congr fun u hu => ((ht v hv).leaves u hu).columnCell_eq env.traits _
    rw [hcells, ← List.map_congr_left hcell, ← hread]
    simp only [List.map_map]
    rfl
  · show FitsWord i64Max _ column.wrapperShape.word _ ↔ _
    rw [hread, hshape, hword]

/-- A bare arm, an option arm and a collapsed chain each compute the column of their values. -/
theorem arms_compute (tr : Traits) (leaf : PrimitiveLeaf) (ctx : LeafCtx) (hctx : ctx.traits = tr) (items : List Operand) :
    (∀ item, BareAccess ctx.access item items →
      (buildLeaf ctx leaf .bare).Computes tr leaf ctx.name items (items.map item)) ∧
    (∀ item receiver, receiver ≠ .place → OptionAccess ctx.access item items →
      (buildLeaf ctx leaf (.option receiver)).Computes tr leaf ctx.name items (items.map item)) ∧
    (∀ chain read, 0 < chain.optionLayers → chain.isSinglePlainOption = false →
      ChainAccess (LeafTyped leaf) ctx.access chain read items →
        (wrapOptionAccessChainPrimitive ctx leaf chain).Computes tr leaf ctx.name items
          (items.map fun it => chainFold chain.steps (read it))) := by
  refine ⟨fun item ha => (buildLeaf_bare leaf hctx ha).computes, fun item receiver hr ha => ?_, fun chain read hpos hmany ha => ?_⟩
  · exact (buildLeaf_option ctx leaf hctx receiver hr ha).computes
  · exact (wrapOptionAccessChainPrimitive_runs leaf hctx hpos hmany ha).computes

/-- Columns without lists: those of a field and those of a tuple's elements have, in every row,
    the encoding of the value found there or a null; every arm runs in step with one loop over
    the values; the scratch buffer of a displayed leaf is never read; and the values of a field
    have the cells that they have as the elements of a list. -/
theorem scalar_columns (tr : Traits) (leaf : PrimitiveLeaf) :
    (∀ (decl : FieldDecl) (name : String) (fieldIndex : Option Nat) (field : FieldIR) (s : LeafShape),
      lowerField decl name fieldIndex = .ok (some field) → field.wrapperShape = .leaf s →
        (field.leafSpec.terminalRoute = some (.primitive leaf) → ∃ c, projectField field = [c] ∧
          c.HasScalars leaf field.walk.typed fun row => (field.root.value? row).bind (chainFold s.access.steps)) ∧
        ∀ elements, field.leafSpec = .tuple elements →
          List.Forall₂ (fun c l => ∀ e, l.leaf.route = .primitive leaf → l.shape = .leaf e →
            c.HasScalars leaf (field.ProjectedTyped l) fun row =>
              ((field.root.value? row).bind (chainFold s.access.steps)).bind fun tuple =>
                (pathValue l.path tuple).bind (chainFold e.access.steps)) (projectField field) (elementsLeaves [] 0 elements)) ∧
    (∀ (ctx : LeafCtx) (items : List Operand), ctx.traits = tr →
      (∀ item, BareAccess ctx.access item items →
        (buildLeaf ctx leaf .bare).Computes tr leaf ctx.name items (items.map item)) ∧
      (∀ item receiver, receiver ≠ .place → OptionAccess ctx.access item items →
        (buildLeaf ctx leaf (.option receiver)).Computes tr leaf ctx.name items (items.map item)) ∧
      ∀ chain read, 0 < chain.optionLayers → chain.isSinglePlainOption = false →
        ChainAccess (LeafTyped leaf) ctx.access chain read items →
          (wrapOptionAccessChainPrimitive ctx leaf chain).Computes tr leaf ctx.name items
            (items.map fun it => chainFold chain.steps (read it))) ∧
    (∀ (ctx : LeafCtx) (kind : LeafArmKind) (s t : LeafBufs) (rows : List Operand), s.Alike t →
      Lockstep (fun a b => a.Alike b ∧ (buildLeaf ctx .asString kind).series a = (buildLeaf ctx .asString kind).series b)
        (rows.foldlM (buildLeaf ctx .asString kind).push s) (rows.foldlM (buildLeaf ctx .asString kind).push t)) ∧
    ∀ (scalar list : FieldColumn) (ws : List RawWrapper) (env : Env) (items items' : List Operand) (vs : List Value),
      scalar.leafSpec.route = .primitive leaf → list.leafSpec.route = .primitive leaf → (∀ ws', ws ≠ .smartPtr :: ws') →
      scalar.wrapperShape = normalizeWrappers ws → list.wrapperShape = normalizeWrappers (.vec :: ws) →
      RowItems items → items.map (fun it => scalar.source.value? it.erase) = vs.map some →
      RowItems items' → items'.map (fun it => list.source.value? it.erase) = [some (.vec vs)] →
      (∀ v ∈ vs, HasWord (PlainLeaf leaf) ws v) →
        Run.Spec ((ColumnIR.field scalar).run env items) (FitsWord i64Max (AllEncode env.traits leaf) ws vs)
          (fun out => ∃ s, out = [s] ∧ s.cells = vs.map (cellOf (leafCell env.traits leaf) ws)) ∧
        Run.Spec ((ColumnIR.field list).run env items')
          (vs.length ≤ i64Max ∧ FitsWord i64Max (AllEncode env.traits leaf) ws vs)
          (fun out => ∃ s, out = [s] ∧ s.cells = [.list (vs.map (cellOf (leafCell env.traits leaf) ws))]) := by
  refine ⟨?_, fun ctx items hctx => arms_compute tr leaf ctx hctx items, ?_, ?_⟩
  · intro decl name fieldIndex field s hlowered hshape
    have hproj := lowerField_projectable hlowered
    refine ⟨fun hleaf => leafField_hasScalars hproj hleaf hshape, fun elements htuple => ?_⟩
    exact (tupleField_hasScalars hproj htuple hshape).imp fun c l h e hroute he => h leaf e hroute he
  · intro ctx kind s t rows h
    exact asStringLeaf_scratch_rows ctx kind h rows
  · intro scalar list ws env items items' vs hscalar hlist hfirst hshape hshape' hrows hvs hrows' hvs' ht
    refine ⟨fieldColumn_cells hscalar hfirst hshape env hrows hvs ht, ?_⟩
    have hvec : ∀ v ∈ [Value.vec vs], HasWord (PlainLeaf leaf) (.vec :: ws) v := by
      intro v hv
      rw [List.mem_singleton.mp hv]
      exact ht
    have hone : items'.map (fun it => list.source.value? it.erase) = [Value.vec vs].map some := hvs'
    refine Runs.congr (fieldColumn_cells hlist (by simp) hshape' env hrows' hone hvec) ?_
    show ((RawWrapper.vec = .vec → (List.flatMap (below .vec) [.vec vs]).length ≤ i64Max) ∧
      FitsWord i64Max _ ws (List.flatMap (below .vec) [.vec vs])) ↔ _
    simp [below]

end DfDerive
