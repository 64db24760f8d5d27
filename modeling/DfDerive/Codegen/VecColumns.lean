/-
  DfDerive.Codegen.VecColumns — primitive columns below `Vec` layers (see `DfDerive.Codegen.Vec`).

  The encoder of such a column reads back, row by row, as the cells of the field, and fails
  exactly when a layer does not fit its offsets or a leaf has no encoding
  (`tryBuildVecEncoder_runs`). The fast path for bare `bool` at depth 1 computes what the
  general path computes (`boolBareDepth1Body_eq`).
-/

import DfDerive.Codegen.LeafWalk

namespace DfDerive

open Lib

section

variable {tr : Traits} {leaf : PrimitiveLeaf} {access : Operand → Run Operand} {read : Operand → Value}
  {items : List Operand}

/-- The pipeline for a primitive leaf below `Vec` layers: it succeeds exactly when every
    layer's size fits an offset and every leaf has an encoding, and its series then reads
    back, row by row, as the cells of the field. -/
theorem vecEmitPep_runs {spec : VecLeafSpec} (hs : SpecReads tr leaf spec) {shape : VecLayers} (hn : shape.Nullable)
    (ha : Accesses access read shape.layers.first.access.steps items)
    (ht : ∀ it ∈ items, HasWord (LeafTyped leaf) shape.word (read it)) :
    Run.Spec (vecEmitPep (lowerToPep spec shape leaf.dtype) shape access items)
      (FitsWord i64Max (AllEncode tr leaf) shape.word (items.map read))
      (fun s => s.dtype = wrapListLayers leaf.dtype shape.depth ∧
        s.cells = (items.map read).map (cellOf (leafCell tr leaf) shape.word)) :=
  (leafWalk_word hn ha ht).primitive hs

/-! ## Bare `bool` at depth 1 -/

/-- Only pointers lie above a `Vec` whose chain has no `Option`. -/
theorem derefAll_chain {vs : List Value} : ∀ {steps : List AccessStep} {v : Value}, .option ∉ steps →
    chainFold steps v = some (.vec vs) → v.derefAll = .vec vs
  | [], v, _, h => by cases h; rfl
  | .option :: _, _, hopt, _ => absurd List.mem_cons_self hopt
  | .smartPtr :: steps, v, hopt, h => by
    cases v with
    | ptr u =>
      show u.derefAll = .vec vs
      exact derefAll_chain (fun hc => hopt (List.mem_cons_of_mem _ hc)) h
    | none => cases h
    | some _ => cases h
    | scalar _ => cases h
    | vec _ => cases h
    | tuple _ => cases h
    | struct _ => cases h

/-- Without an `Option` above it, the first list of every item is present and read through
    its pointers. -/
theorem bareList {l : VecLayerSpec} (hopt : .option ∉ l.access.steps) {it : Operand} {v : Value}
    (ha : ∃ o, access it = .ok o ∧ ChainBase l.access.steps (.ref o) v)
    (hv : HasWord (fun u => ∃ vs, u = .vec vs ∧ ∀ c ∈ vs, ∃ b, c = .scalar (.bool b)) l.access.word v) :
    ∃ bs : List Bool, tree none [l] 0 v = .list (bs.map fun b => .val (.scalar (.bool b))) ∧
      ∃ o, access it = .ok o ∧ (Operand.ref o).vecIter = .ok (bs.map fun b => .ref (.place (.scalar (.bool b)))) := by
  obtain ⟨o, ho, hb⟩ := ha
  rcases HasWord.chain l.access.steps hv with ⟨u, hu, ⟨vs, rfl, hvs⟩, -, -⟩ | ⟨-, hc, -, -⟩
  · obtain ⟨bs, rfl⟩ : ∃ bs : List Bool, vs = bs.map fun b => .scalar (.bool b) := by
      clear hu
      induction vs with
      | nil => exact ⟨[], rfl⟩
      | cons c vs ih =>
        obtain ⟨b, rfl⟩ := hvs c List.mem_cons_self
        obtain ⟨bs, rfl⟩ := ih fun c hc => hvs c (List.mem_cons_of_mem _ hc)
        exact ⟨b :: bs, rfl⟩
    have hplace : (Operand.ref o).strip = .place v := by
      generalize hst : l.access.steps = steps at hb hopt
      cases hb with
      | ref => rfl
      | absent => exact absurd List.mem_cons_self hopt
      | present => exact absurd List.mem_cons_self hopt
    refine ⟨bs, ?_, o, ho, ?_⟩
    · simp only [tree, hu, below, List.map_map]
      rfl
    · simp only [Operand.vecIter, hplace, derefAll_chain hopt hu, List.map_map]
      rfl
  · exact absurd hc hopt

theorem mapM_boolOf (bs : List Bool) :
    (bs.map fun b => Operand.ref (.place (.scalar (.bool b)))).mapM (fun x => do boolOf (← x.deref)) = .ok bs := by
  induction bs with
  | nil => rfl
  | cons b bs ih => rw [List.map_cons, List.mapM_cons, ih]; rfl

/-- The leaves of a list, pushed one by one. -/
theorem boolBare_pushes (tr : Traits) {total : Nat} (bs : List Bool) : ∀ (flat : List Bool) (s : VecLeafBufs),
    (flat ++ bs).length ≤ total → VecAbs .bool false total s (flat.map fun b => some (.bool b)) →
      ∃ s', (bs.map fun b => (Nested.val (.scalar (.bool b)) : Nested Value)).foldlM
          (pushLeaf fun s v => boolBareLeafPieces.push s (.ref (.place v))) s = .ok s' ∧
        VecAbs .bool false total s' ((flat ++ bs).map fun b => some (.bool b)) := by
  induction bs with
  | nil => intro flat s _ h; exact ⟨s, rfl, by rwa [List.append_nil]⟩
  | cons b bs ih =>
    intro flat s hlen h
    have hlt : (flat.map fun b => some (Prim.bool b)).length < total := by
      simp only [List.length_map, List.length_append, List.length_cons] at hlen ⊢
      omega
    obtain ⟨-, hpush⟩ := boolBare_push tr ⟨_, rfl, Operand.refTo_place (.scalar (.bool b))⟩ hlt h
    obtain ⟨s1, hs1, h1⟩ := hpush (some (.bool b)) (fun u hu => by cases hu; exact ⟨rfl, rfl⟩) (by simp)
    have h1' : VecAbs .bool false total s1 ((flat ++ [b]).map fun b => some (.bool b)) := by simpa using h1
    obtain ⟨s2, hs2, h2⟩ := ih (flat ++ [b]) s1 (by simpa using hlen) h1'
    refine ⟨s2, ?_, by simpa using h2⟩
    rw [List.map_cons, List.foldlM_cons]
    simp only [pushLeaf, ok_bind, hs1]
    exact hs2

/-- The general scan's buffers and the fast path's, after the same rows. -/
def BoolBareSim (total : Nat) (rows : List (Nested Value)) (st : ListBuf × VecLeafBufs) (t : List Bool × List Nat) : Prop :=
  st.1.offsets = t.2 ∧ st.1.validity = none ∧ VecAbs .bool false total st.2 (t.1.map fun b => some (.bool b)) ∧
    t.1.length = (children rows).length

theorem boolBare_step (tr : Traits) {total : Nat} {rows : List (Nested Value)} {st : ListBuf × VecLeafBufs}
    {t : List Bool × List Nat} {bs : List Bool} {it o : Operand} (hst : BoolBareSim total rows st t)
    (hroom : (children rows).length + bs.length ≤ total) (ho : access it = .ok o)
    (hiter : (Operand.ref o).vecIter = .ok (bs.map fun b => .ref (.place (.scalar (.bool b))))) (l : VecLayerSpec) :
    Lockstep (BoolBareSim total (rows ++ [.list (bs.map fun b => .val (.scalar (.bool b)))]))
      (pushRow (fun s v => boolBareLeafPieces.push s (.ref (.place v))) (leafOffsetsPostPush .bool) listOffsetI64Expr [l]
        st (.list (bs.map fun b => .val (.scalar (.bool b)))))
      (boolBareStep access t it) := by
  obtain ⟨b, s⟩ := st
  obtain ⟨flat, offsets⟩ := t
  obtain ⟨hoff, hvalid, habs, hlen⟩ := hst
  dsimp only at hoff hvalid habs hlen
  obtain ⟨s', hpush, habs'⟩ := boolBare_pushes tr bs flat s (by rw [List.length_append]; omega) habs
  have hcount : leafOffsetsPostPush .bool s' = (flat ++ bs).length := by rw [habs'.length, List.length_map]
  show Lockstep _ (do
    let inner ← (bs.map fun b => (Nested.val (.scalar (.bool b)) : Nested Value)).foldlM
      (pushLeaf fun s v => boolBareLeafPieces.push s (.ref (.place v))) s
    closeRow (leafOffsetsPostPush .bool) listOffsetI64Expr ([] : List VecLayerSpec) b true inner) _
  simp only [hpush, closeRow, Bufs.count, hcount, boolBareStep, ho, ok_bind, hiter, mapM_boolOf]
  cases hn : listOffsetI64Expr (flat ++ bs).length with
  | error e => exact Or.inl ⟨e, rfl, rfl⟩
  | ok n =>
    refine Lockstep.pure ⟨by simp [hoff], by simp [hvalid], habs', ?_⟩
    rw [children_append, children_list, List.length_append, List.length_append, List.length_map, hlen]

/-- Every item reads as a list of `bool`s, in both paths. -/
def BoolLists (access : Operand → Run Operand) (rowAt : Operand → Nested Value) (items : List Operand) : Prop :=
  ∀ it ∈ items, ∃ bs : List Bool, rowAt it = .list (bs.map fun b => .val (.scalar (.bool b))) ∧
    ∃ o, access it = .ok o ∧ (Operand.ref o).vecIter = .ok (bs.map fun b => .ref (.place (.scalar (.bool b))))

theorem boolBare_precount {rowAt : Operand → Nested Value} (h : BoolLists access rowAt items) (m : Nat) :
    ∃ k, items.foldlM (fun n it => do .ok (n + (← (Operand.ref (← access it)).vecLen))) m = (.ok k : Run Nat) := by
  induction items generalizing m with
  | nil => exact ⟨m, rfl⟩
  | cons it items ih =>
    obtain ⟨bs, -, o, ho, hiter⟩ := h it List.mem_cons_self
    obtain ⟨k, hk⟩ := ih (fun it hit => h it (List.mem_cons_of_mem _ hit)) (m + bs.length)
    refine ⟨k, ?_⟩
    simp only [List.foldlM_cons, ho, ok_bind, Operand.vecLen, hiter, List.length_map]
    exact hk

theorem boolBare_loop (tr : Traits) {rowAt : Operand → Nested Value} (h : BoolLists access rowAt items) (l : VecLayerSpec) :
    Lockstep (BoolBareSim (children (items.map rowAt)).length (items.map rowAt))
      (items.foldlM (fun st it => pushRow (fun s v => boolBareLeafPieces.push s (.ref (.place v)))
        (leafOffsetsPostPush .bool) listOffsetI64Expr [l] st (rowAt it))
        (ListBuf.empty false, boolBareLeafPieces.storage (children (items.map rowAt)).length))
      (items.foldlM (boolBareStep access) ([], [0])) := by
  have h0 : BoolBareSim (children (items.map rowAt)).length []
      (ListBuf.empty false, boolBareLeafPieces.storage (children (items.map rowAt)).length) ([], [0]) :=
    ⟨rfl, rfl, pieces_storage .bool false _, rfl⟩
  refine Lockstep.foldlM (R := fun pre => BoolBareSim (children (items.map rowAt)).length (pre.map rowAt)) items [] _ _
    (fun pre it post st t hl hst => ?_) h0
  rw [List.nil_append] at hl
  obtain ⟨bs, hrow, o, ho, hiter⟩ := h it (by rw [hl]; simp)
  have hroom : (children (pre.map rowAt)).length + bs.length ≤ (children (items.map rowAt)).length := by
    have hone : (children [rowAt it]).length = bs.length := by rw [hrow, children_list, List.length_map]
    rw [hl, List.map_append, List.map_cons, List.append_cons, children_append, children_append, List.length_append,
      List.length_append]
    omega
  rw [hrow, List.map_append, List.map_cons, List.map_nil, hrow]
  exact boolBare_step tr hst hroom ho hiter l

/-- The fast path for bare `bool` at depth 1 computes what the general path computes. -/
theorem boolBareDepth1Body_eq (tr : Traits) {shape : VecLayers} (hn : shape.Nullable) (hdepth : shape.depth = 1)
    (houter : shape.anyOuterValidity = false) (hinner : shape.innerAccess.isEmpty = true)
    (ha : Accesses access read shape.layers.first.access.steps items)
    (ht : ∀ it ∈ items, HasWord (LeafTyped .bool) shape.word (read it)) (dtype : DataType) :
    boolBareDepth1Body dtype access items = vecEmitPep (lowerToPep .bool shape dtype) shape access items := by
  obtain ⟨⟨l, rest⟩, n, inner⟩ := shape
  obtain rfl : rest = [] := by simpa [VecLayers.depth, NonEmpty.len] using hdepth
  obtain ⟨steps⟩ := inner
  obtain rfl : steps = [] := by simpa [AccessChain.isEmpty] using hinner
  have hvalid : l.hasOuterValidity = false := by simpa [VecLayers.anyOuterValidity, NonEmpty.toList] using houter
  have hopt : .option ∉ l.access.steps := by
    have h1 := hn.layers l (by simp [NonEmpty.toList])
    rw [hvalid] at h1
    rw [← optionLayers_pos]
    exact of_decide_eq_false h1.symm
  have hno : VecLayers.hasInnerOption ⟨⟨l, []⟩, n, ⟨[]⟩⟩ = false := by
    rw [Bool.eq_false_iff, Ne, innerOption_iff hn]
    simp
  have hw := walks_word (Q := fun _ => True) ha ht fun _ _ => trivial
  have hlists : BoolLists access (fun it => tree none [l] 0 (read it)) items := fun it hit =>
    bareList hopt (ha it hit) (by
      have := ht it hit
      rw [VecLayers.word_eq, NonEmpty.toList, layersWord_cons, List.append_assoc, hasWord_append] at this
      refine HasWord.mono (fun u hu => ?_) this
      obtain ⟨vs, rfl, hvs⟩ := hasWord_vec.mp hu
      exact ⟨vs, rfl, hvs⟩)
  obtain ⟨k, hk⟩ := boolBare_precount hlists 0
  have hscan : ShapeScan.build ⟨pepLeafBody ⟨⟨l, []⟩, n, ⟨[]⟩⟩ boolBareLeafPieces.push, leafOffsetsPostPush .bool, none⟩
      ⟨⟨l, []⟩, n, ⟨[]⟩⟩ access items (shapeDecls ⟨⟨l, []⟩, n, ⟨[]⟩⟩
        (boolBareLeafPieces.storage (children (items.map fun it => tree none [l] 0 (read it))).length)) = _ :=
    build_eq rfl hn hw ⟨by simp [ListBuf.empty, hvalid], trivial⟩
  rw [List.foldlM_map] at hscan
  have hpep : lowerToPep .bool ⟨⟨l, []⟩, n, ⟨[]⟩⟩ dtype =
      ⟨boolBareLeafPieces.push, boolBareLeafPieces.storage, boolBareLeafPieces.leafArr, leafOffsetsPostPush .bool, dtype⟩ := by
    simp only [lowerToPep, hno]
    rfl
  unfold vecEmitPep pepEmit boolBareDepth1Body
  simp only [hpep, precount_eq hw, hk, ok_bind]
  have hdecls : shapeDecls ⟨⟨l, []⟩, n, ⟨[]⟩⟩
      (boolBareLeafPieces.storage (children (items.map fun it => tree none [l] 0 (read it))).length) =
        (ListBuf.empty false, boolBareLeafPieces.storage (children (items.map fun it => tree none [l] 0 (read it))).length) := by
    rw [← hvalid]
    rfl
  rw [hdecls] at hscan
  rw [show Counts.total _ _ = (children (items.map fun it => tree none [l] 0 (read it))).length from rfl, hdecls, hscan]
  rcases boolBare_loop tr hlists l with ⟨e, h1, h2⟩ | ⟨⟨b, s⟩, ⟨flat, offsets⟩, h1, h2, hoff, hval, habs, hlen⟩
  · rw [h2]
    refine Eq.symm ?_
    refine (congrArg (· >>= _) h1).trans rfl
  · rw [h2]
    dsimp only at hoff hval habs hlen
    have hvalues : s.values = flat := by
      have := habs.2.1.full (by rw [List.length_map]; exact hlen)
      rw [this, List.map_map]
      simp [boolBit, Function.comp_def]
    refine Eq.symm ((congrArg (· >>= _) h1).trans ?_)
    subst hvalues hoff
    have harr : boolBareLeafPieces.leafArr s = .ok (.flat .boolean (s.values.map .bool) none) := by
      simp only [boolBareLeafPieces, flatArrayNew, reduceCtorEq, false_implies, implies_true, ite_true]
    show (do
      let leafArr ← boolBareLeafPieces.leafArr s
      shapeAssembleListStack freezeMove leafArr [b] dtype) = _
    simp only [harr, ok_bind, shapeAssembleListStack, List.foldrM_cons, List.foldrM_nil, pure_bind, wrapLayer, hval,
      List.length_cons, List.length_nil, Nat.sub_self, wrapListLayers, bind_assoc]

theorem vecEncoderBoolBare_eq (tr : Traits) (name : String) {shape : VecLayers} (hn : shape.Nullable)
    (ha : Accesses access read shape.layers.first.access.steps items)
    (ht : ∀ it ∈ items, HasWord (LeafTyped .bool) shape.word (read it)) :
    vecEncoderBoolBare name shape access items = vecEncoder name .bool shape PrimitiveLeaf.bool.dtype access items := by
  unfold vecEncoderBoolBare
  split
  · rename_i hfast
    obtain ⟨hdepth, houter, hinner⟩ := hfast
    simp only [boolBareDepth1Body_eq tr hn hdepth (by simpa using houter) hinner ha ht, vecEncoder]
  · rfl

/-- Every leaf goes through the general pipeline of its plan, the fast path included. -/
theorem tryBuildVecEncoder_eq (tr : Traits) (name : String) (leaf : PrimitiveLeaf) {shape : VecLayers}
    (hn : shape.Nullable) (ha : Accesses access read shape.layers.first.access.steps items)
    (ht : ∀ it ∈ items, HasWord (LeafTyped leaf) shape.word (read it)) :
    tryBuildVecEncoder tr name leaf shape access items =
      vecEncoder name (vecLeafPlan tr leaf).spec shape leaf.dtype access items := by
  have hplan := (vecLeafPlan_reads tr leaf).2
  cases leaf <;> simp only [tryBuildVecEncoder, hplan]
  case bool =>
    split
    · rfl
    · exact vecEncoderBoolBare_eq tr name hn ha ht

/-- The encoder of a primitive column below `Vec` layers gives one series, of the field's
    name and dtype, whose cells are the reference's; it fails exactly when a layer does not
    fit its offsets or a leaf has no encoding. -/
theorem tryBuildVecEncoder_runs (tr : Traits) (name : String) (leaf : PrimitiveLeaf) {shape : VecLayers}
    (hn : shape.Nullable) (ha : Accesses access read shape.layers.first.access.steps items)
    (ht : ∀ it ∈ items, HasWord (LeafTyped leaf) shape.word (read it)) :
    Run.Spec (tryBuildVecEncoder tr name leaf shape access items)
      (FitsWord i64Max (AllEncode tr leaf) shape.word (items.map read))
      (fun out => ∃ s, out = [s] ∧ s.name = name ∧ s.dtype = wrapListLayers leaf.dtype shape.depth ∧
        s.cells = (items.map read).map (cellOf (leafCell tr leaf) shape.word)) := by
  rw [tryBuildVecEncoder_eq tr name leaf hn ha ht]
  unfold vecEncoder
  refine Runs.congr (Runs.bind (vecEmitPep_runs (vecLeafPlan_reads tr leaf).1 hn ha ht) (H := True) fun _ s hs => ?_)
    (and_iff_left trivial)
  exact Runs.pure trivial ⟨s.withName name, rfl, rfl, hs.1, hs.2⟩

end

end DfDerive
