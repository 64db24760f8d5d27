/-
  DfDerive.Codegen.NestedProofs — nested columns (see `DfDerive.Codegen.Nested`).

  After the scan the flat vector holds the present elements and every position is the
  index of its element (`NestedAbs`). Whatever the element type's implementation answers,
  the materialization either reports an error or gives one series for every schema entry,
  of the declared dtype, whose leaves are a column of the answer gathered through the
  positions (`materialize_runs`): the branches differ only in how they get there.
-/

import DfDerive.Codegen.Nested
import DfDerive.Codegen.VecProofs
import DfDerive.Spec.Rows

namespace DfDerive

open Lib

/-! ## Collecting -/

/-- The buffers after the leaf slots `xs`: the present elements, and where each one is. -/
structure NestedAbs (hasInnerOption : Bool) (s : NestedBufs) (xs : List (Option Value)) : Prop where
  flat : s.flat = xs.reduceOption
  positions : hasInnerOption = true → s.positions = positions xs
  present : hasInnerOption = false → ∀ x ∈ xs, x.isSome = true

/-- The positions of the present elements fit the index type. -/
def PositionsFit (hasInnerOption : Bool) (us : List Value) : Prop := hasInnerOption = true → us.length ≤ idxSizeMax + 1

theorem NestedAbs.new (hasInnerOption : Bool) : NestedAbs hasInnerOption .new [] := ⟨rfl, fun _ => rfl, by simp⟩

theorem NestedAbs.full {s : NestedBufs} {xs : List (Option Value)} (h : NestedAbs false s xs) :
    xs.reduceOption.length = xs.length :=
  List.reduceOption_length_eq_iff.mpr (h.present rfl)

theorem NestedAbs.length {hasInnerOption : Bool} {s : NestedBufs} {xs : List (Option Value)}
    (h : NestedAbs hasInnerOption s xs) : (if hasInnerOption then s.positions.length else s.flat.length) = xs.length := by
  cases hasInnerOption with
  | true => rw [h.positions rfl]; exact positionsFrom_length 0 xs
  | false =>
    rw [h.flat]
    exact h.full

theorem PositionsFit.sublist {hasInnerOption : Bool} {us vs : List Value} (hs : us.Sublist vs)
    (h : PositionsFit hasInnerOption vs) : PositionsFit hasInnerOption us :=
  fun ho => Nat.le_trans hs.length_le (h ho)

theorem PositionsFit.nil (hasInnerOption : Bool) : PositionsFit hasInnerOption [] := fun _ => Nat.zero_le _

theorem pushFlat_runs {s : NestedBufs} {xs : List (Option Value)} {o : Operand} {u : Value}
    (ho : o.RefTo u) (h : NestedAbs false s xs) : ∃ t, pushFlat s o = .ok t ∧ NestedAbs false t (xs ++ [some u]) := by
  refine ⟨{ s with flat := s.flat ++ [u] }, by simp only [pushFlat, ho.value, ok_bind], ?_, by simp, fun _ x hx => ?_⟩
  · show s.flat ++ [u] = (xs ++ [some u]).reduceOption
    rw [h.flat, List.reduceOption_append]
    rfl
  · rcases List.mem_append.mp hx with hx | hx
    · exact h.present rfl x hx
    · rw [List.mem_singleton.mp hx]; rfl

theorem pushPosition_runs {s : NestedBufs} {xs : List (Option Value)} {o : Operand} {x : Option Value}
    (ho : o.MatchesTo x) (h : NestedAbs true s xs) (hfit : PositionsFit true xs.reduceOption) :
    Run.Spec (pushPosition s o) (PositionsFit true (xs ++ [x]).reduceOption) (NestedAbs true · (xs ++ [x])) := by
  cases x with
  | none =>
    have hm : o.matchOption = .ok none := ho
    have hred : (xs ++ [none]).reduceOption = xs.reduceOption := by rw [List.reduceOption_append]; simp
    simp only [pushPosition, hm, ok_bind, hred]
    refine Runs.pure hfit ⟨by rw [hred]; exact h.flat, fun _ => ?_, by simp⟩
    rw [positions_snoc_none, ← h.positions rfl]
  | some u =>
    obtain ⟨p, hm, href⟩ := ho
    have hred : (xs ++ [some u]).reduceOption = xs.reduceOption ++ [u] := by rw [List.reduceOption_append]; rfl
    simp only [pushPosition, hm, ok_bind, href.value, hred]
    refine Runs.congr (Runs.bind (idxSizeLenExpr_runs _) (H := True) fun _ n hn => Runs.pure trivial ?_) ?_
    · subst hn
      refine ⟨by rw [hred, h.flat], fun _ => ?_, by simp⟩
      rw [positions_snoc_some, ← h.positions rfl, h.flat]
    · rw [h.flat, PositionsFit]
      simp only [true_implies, List.length_append, List.length_cons, List.length_nil, and_true]
      omega

theorem nestedPush_runs {hasInnerOption : Bool} {s : NestedBufs} {xs : List (Option Value)} {o : Operand}
    {x : Option Value} (ho : LeafReads hasInnerOption o x) (h : NestedAbs hasInnerOption s xs)
    (hfit : PositionsFit hasInnerOption xs.reduceOption) :
    Run.Spec (nestedPush hasInnerOption s o) (PositionsFit hasInnerOption (xs ++ [x]).reduceOption)
      (NestedAbs hasInnerOption · (xs ++ [x])) := by
  cases hasInnerOption with
  | true => exact pushPosition_runs ho.optional h hfit
  | false =>
    obtain ⟨u, rfl, href⟩ := ho.bare
    obtain ⟨t, ht, habs⟩ := pushFlat_runs href h
    show Run.Spec (pushFlat s o) _ _
    rw [ht]
    exact Runs.pure (by simp [PositionsFit]) habs

/-! ## Below `Vec` layers -/

/-- The leaf body binds the leaf operand and pushes it. -/
theorem ctbLeafBody_eq {shape : VecLayers} (hn : shape.Nullable) :
    ctbLeafBody shape = leafLoop (pepLeafExpr shape) (nestedPush shape.hasInnerOption) := by
  have hopt := innerOption_iff hn
  unfold ctbLeafBody
  split
  · rename_i hemp
    have hst : shape.innerAccess.steps = [] := by simpa [AccessChain.isEmpty] using hemp
    have hno : shape.hasInnerOption = false := by rw [Bool.eq_false_iff, Ne, hopt, hst]; simp
    simp only [hno, leafLoop, pepLeafExpr, hemp, Bool.true_or, ite_true, ok_bind]
    rfl
  · rename_i hemp
    split
    · rename_i hone
      have hyes : shape.hasInnerOption = true := by rw [hopt, singlePlainOption_steps hone]; simp
      simp only [hyes, leafLoop, pepLeafExpr, hone, Bool.or_true, ite_true, ok_bind]
      rfl
    · rename_i hone
      have hbody : ∀ raw, pepLeafExpr shape raw = (accessChainToRef (.ok raw) shape.innerAccess).expr := fun raw =>
        if_neg (by simp [hemp, hone])
      have hflag : ∀ raw : Operand, (accessChainToRef (.ok raw) shape.innerAccess).hasOption = shape.hasInnerOption := by
        intro raw
        rw [accessChainToRef_hasOption, Bool.eq_iff_iff, decide_eq_true_iff]
        exact hopt.symm
      unfold leafLoop nestedPush
      congr 1
      funext s raw
      simp only [hbody, hflag]
      cases shape.hasInnerOption <;> rfl

section

variable {hasInnerOption : Bool} {expr : Operand → Run Operand} {item : Value → Option Value}

/-- The expression bound for a raw item reads the element `item` finds below it. -/
def ReadsElement (hasInnerOption : Bool) (expr : Operand → Run Operand) (item : Value → Option Value) (v : Value) : Prop :=
  ∃ o, expr (.ref (.place v)) = .ok o ∧ LeafReads hasInnerOption o (item v)

theorem nestedLeafPush (expr : Operand → Run Operand) {shape : VecLayers} (hopt : shape.hasInnerOption = hasInnerOption) :
    LeafPush Fault.FromData (fun s v => do nestedPush hasInnerOption s (← expr (.ref (.place v))))
      (nestedOffsetsPostPush shape) (fun s vs => NestedAbs hasInnerOption s (vs.map item)) (fun _ => True)
      (fun vs => PositionsFit hasInnerOption (vs.map item).reduceOption) (ReadsElement hasInnerOption expr item) where
  step s vs v hv _ hf habs := by
    obtain ⟨o, ho, hreads⟩ := hv
    simp only [ho, ok_bind, List.map_append, List.map_cons, List.map_nil]
    exact nestedPush_runs hreads habs hf
  len_eq s vs h := by
    rw [nestedOffsetsPostPush, hopt, h.length, List.length_map]
  fits_prefix as bs h := by
    refine PositionsFit.sublist ?_ h
    rw [List.map_append, List.reduceOption_append]
    exact List.sublist_append_left _ _
  room_prefix _ _ _ := trivial

end

/-! ## Materializing -/

/-- The implementation's answer for the collected rows passes the checks made on it. -/
def Answers (impl : Impl) (flat : List Value) (entries : List (String × DataType)) : Prop :=
  ∃ df, impl.columnarFromRefs flat = .ok df ∧ df.height = flat.length ∧
    ∀ e ∈ entries, ∃ s, df.column e.1 = .ok s ∧ s.dtype = e.2

/-- The errors of looking up and checking the column of a schema entry are admitted. -/
structure ColumnWithin (E : Fault → Prop) (df : DataFrame) (e : String × DataType) : Prop where
  lookup : ∀ f, df.column e.1 = .error f → E f
  dtype : ∀ s, df.column e.1 = .ok s → s.dtype ≠ e.2 → E (.err (.compute (.nestedColumnDtype e.1 s.dtype e.2)))

/-- The errors about the data, those of an implementation asked to convert `flat`, and those
    of the checks on its answer are admitted. -/
structure Impl.Within (E : Fault → Prop) (impl : Impl) (flat : List Value) : Prop where
  data : ∀ f, f.FromData → E f
  schema : ∀ f, impl.schema = .error f → E f
  batch : ∀ f, impl.columnarFromRefs flat = .error f → E f
  height : ∀ df, impl.columnarFromRefs flat = .ok df → df.height ≠ flat.length →
    E (.err (.compute (.nestedHeight impl.typeName df.height flat.length)))
  columns : ∀ df entries, impl.columnarFromRefs flat = .ok df → impl.schema = .ok entries →
    ∀ e ∈ entries, ColumnWithin E df e

/-- Whatever an implementation answers, the checks end in an `Err`. -/
theorem Impl.within_reported {impl : Impl} {flat : List Value} (hs : ∀ f, impl.schema = .error f → f.Reported)
    (hb : ∀ f, impl.columnarFromRefs flat = .error f → f.Reported) : impl.Within Fault.Reported flat where
  data _ hf := hf.reported
  schema := hs
  batch := hb
  height _ _ _ := trivial
  columns df entries _ _ e _ := by
    refine ⟨fun f hf => ?_, fun _ _ _ => trivial⟩
    unfold DataFrame.column at hf
    split at hf <;> cases hf
    trivial

/-- `col` is the column of the entry in whatever frame the implementation answers. -/
def AnswerColumn (impl : Impl) (flat : List Value) (used : Prop) (e : String × DataType) (col : List Cell) : Prop :=
  col.length = flat.length ∧ (used → ∀ df, impl.columnarFromRefs flat = .ok df → ∃ s, df.column e.1 = .ok s ∧ s.cells = col)

section

variable {E : Fault → Prop} {ctb : CollectThenBulk} {flat : List Value} {total depth : Nat}
  {layers : Option (List ListBuf)} {xs : List (Option Value)} {wrapCells : List Cell → List Cell}

/-- An inner column of the right length is wrapped, and then has the cells `wrapCells` says. -/
def Wraps (layers : Option (List ListBuf)) (total depth : Nat) (wrapCells : List Cell → List Cell) : Prop :=
  ∀ (dtype : DataType) (s : Series), s.dtype = dtype → s.len = total →
    ∃ out, wrapNestedColumn layers dtype s = .ok out ∧ out.dtype = wrapListLayers dtype depth ∧
      out.chunk.Exact depth ∧ out.cells = wrapCells s.cells

theorem consumeNestedColumns_runs {innerCol : String → DataType → Run Series} {entries : List (String × DataType)}
    {G : String × DataType → Prop} {C : String × DataType → List Cell → Prop} (hschema : ctb.impl.schema = .ok entries)
    (hw : Wraps layers total depth wrapCells)
    (h : ∀ e ∈ entries, Runs E (innerCol e.1 e.2) (G e) (fun s => s.dtype = e.2 ∧ s.len = total ∧ C e s.cells)) :
    Runs E (consumeNestedColumns ctb layers innerCol) (∀ e ∈ entries, G e)
      (fun out => List.Forall₂ (fun e s => s.name = composeNestedName ctb.namePolicy ctb.name e.1 ∧
        s.dtype = wrapListLayers e.2 depth ∧ s.chunk.Exact depth ∧ ∃ c, C e c ∧ s.cells = wrapCells c) entries out) := by
  simp only [consumeNestedColumns, hschema, ok_bind]
  refine Runs.mapM fun e he => ?_
  refine Runs.congr (Runs.bind (h e he) (H := True) fun _ s hs => ?_) (and_iff_left trivial)
  obtain ⟨hd, hl, hc⟩ := hs
  obtain ⟨out, hout, hod, hexact, hoc⟩ := hw e.2 s hd hl
  simp only [hout, ok_bind]
  exact Runs.pure trivial ⟨rfl, hod, hexact, s.cells, hc, hoc⟩

/-- A column of a frame has the frame's height. -/
theorem column_len {df : DataFrame} {name : String} {s : Series} (h : df.column name = .ok s) : s.len = df.height := by
  unfold DataFrame.column at h
  split at h
  · rename_i hs
    cases h
    exact df.heights s (List.mem_of_find?_eq_some hs)
  · cases h

/-- The checked column of a frame. -/
theorem buildInnerColDirect_runs {df : DataFrame} {e : String × DataType} (hin : ColumnWithin E df e) :
    Runs E (buildInnerColDirect df e.1 e.2) (∃ s, df.column e.1 = .ok s ∧ s.dtype = e.2)
      (fun s => s.dtype = e.2 ∧ s.len = df.height ∧ df.column e.1 = .ok s) := by
  unfold buildInnerColDirect validateNestedColumnDtype
  cases h : df.column e.1 with
  | error f => exact Runs.throw (fun ⟨s, hs, _⟩ => by cases hs) (hin.lookup f h)
  | ok s =>
    simp only [ok_bind]
    split
    · rename_i hne
      refine Runs.throw (fun ⟨t, ht, hd⟩ => ?_) (hin.dtype s h hne)
      cases ht
      exact hne hd
    · rename_i heq
      exact Runs.pure ⟨s, rfl, not_not.mp heq⟩ ⟨not_not.mp heq, column_len h, rfl⟩

/-- The checked column, gathered: every position is in range. -/
theorem buildInnerColTake_runs {df : DataFrame} {e : String × DataType} (hin : ColumnWithin E df e)
    (hheight : df.height = xs.reduceOption.length) :
    Runs E (buildInnerColTake df (positions xs) e.1 e.2) (∃ s, df.column e.1 = .ok s ∧ s.dtype = e.2)
      (fun t => t.dtype = e.2 ∧ ∃ s, df.column e.1 = .ok s ∧ t.cells = gather s.cells .null (positions xs)) := by
  have hdirect : buildInnerColTake df (positions xs) e.1 e.2 =
      buildInnerColDirect df e.1 e.2 >>= fun s => s.take (positions xs) := by
    simp only [buildInnerColTake, buildInnerColDirect, bind_assoc, ok_bind]
  rw [hdirect]
  refine Runs.congr (Runs.bind (buildInnerColDirect_runs hin) (H := True) fun _ s hs => ?_) (and_iff_left trivial)
  obtain ⟨hd, hlen, hcol⟩ := hs
  rw [Series.take, if_pos]
  · exact Runs.pure trivial ⟨hd, s, hcol, rfl⟩
  · intro i hi k hk
    subst hk
    rw [hlen, hheight]
    exact positions_lt hi

theorem nestedDfDecl_runs {impl : Impl} {flat : List Value} (hin : impl.Within E flat) :
    Runs E (nestedDfDecl impl flat) (∃ df, impl.columnarFromRefs flat = .ok df ∧ df.height = flat.length)
      (fun df => impl.columnarFromRefs flat = .ok df ∧ df.height = flat.length) := by
  unfold nestedDfDecl validateNestedFrame
  cases h : impl.columnarFromRefs flat with
  | error e => exact Runs.throw (fun ⟨df, hdf, _⟩ => by cases hdf) (hin.batch e h)
  | ok df =>
    simp only [ok_bind]
    split
    · rename_i hne
      refine Runs.throw (fun ⟨df', hdf, hh⟩ => ?_) (hin.height df h hne)
      cases hdf
      exact hne hh
    · rename_i heq
      exact Runs.pure ⟨df, rfl, not_not.mp heq⟩ ⟨rfl, not_not.mp heq⟩

end

/-- The series of the columns, whatever the element type answers. -/
def NestedSeries (ctb : CollectThenBulk) (flat : List Value) (used : Prop) (xs : List (Option Value)) (depth : Nat)
    (wrapCells : List Cell → List Cell) (out : List Series) : Prop :=
  ∃ entries, ctb.impl.schema = .ok entries ∧ List.Forall₂ (fun e s =>
    s.name = composeNestedName ctb.namePolicy ctb.name e.1 ∧ s.dtype = wrapListLayers e.2 depth ∧ s.chunk.Exact depth ∧
      ∃ col, AnswerColumn ctb.impl flat used e col ∧ s.cells = wrapCells (gather col .null (positions xs))) entries out

/-- The checks pass: the schema is there and, if the frame is used, its columns are. -/
def NestedAnswers (ctb : CollectThenBulk) (flat : List Value) (used : Prop) : Prop :=
  ∃ entries, ctb.impl.schema = .ok entries ∧ (used → Answers ctb.impl flat entries)

section

variable {E : Fault → Prop} {ctb : CollectThenBulk} {flat : List Value} {total depth : Nat}
  {layers : Option (List ListBuf)} {xs : List (Option Value)} {wrapCells : List Cell → List Cell}

theorem schema_cases {impl : Impl} (hin : impl.Within E flat) :
    (∃ entries, impl.schema = .ok entries) ∨ ∃ e, impl.schema = .error e ∧ E e := by
  cases h : impl.schema with
  | ok entries => exact Or.inl ⟨entries, rfl⟩
  | error e => exact Or.inr ⟨e, rfl, hin.schema e h⟩

theorem consume_error {innerCol : String → DataType → Run Series} {e : Fault} (h : ctb.impl.schema = .error e) :
    consumeNestedColumns ctb layers innerCol = .error e := by
  simp only [consumeNestedColumns, h, error_bind]

/-- The branches that use the frame: directly, or gathered. -/
theorem consume_frame {innerCol : DataFrame → String → DataType → Run Series}
    (hin : ctb.impl.Within E flat) {used : Prop} (hused : used) (hw : Wraps layers total depth wrapCells)
    (hcol : ∀ (df : DataFrame) (e : String × DataType), df.height = flat.length → ColumnWithin E df e →
      Runs E (innerCol df e.1 e.2) (∃ s, df.column e.1 = .ok s ∧ s.dtype = e.2) fun t =>
        t.dtype = e.2 ∧ t.len = total ∧ ∃ s, df.column e.1 = .ok s ∧ t.cells = gather s.cells .null (positions xs)) :
    Runs E (do
        let df ← nestedDfDecl ctb.impl flat
        consumeNestedColumns ctb layers (innerCol df))
      (NestedAnswers ctb flat used) (NestedSeries ctb flat used xs depth wrapCells) := by
  rcases schema_cases hin with ⟨entries, hs⟩ | ⟨e, he, hrep⟩
  · refine Runs.congr (Runs.bind (nestedDfDecl_runs hin)
      (H := ∃ df, ctb.impl.columnarFromRefs flat = .ok df ∧ ∀ e ∈ entries, ∃ s, df.column e.1 = .ok s ∧ s.dtype = e.2)
      fun _ df hdf => ?_) ?_
    · obtain ⟨hdf, hheight⟩ := hdf
      have hrun := consumeNestedColumns_runs (C := fun e c => ∃ s, df.column e.1 = .ok s ∧
        c = gather s.cells .null (positions xs)) hs hw fun e he =>
        hcol df e hheight (hin.columns df entries hdf hs e he)
      refine Runs.mono (Runs.congr hrun ?_) fun _ out hout => ⟨entries, hs, ?_⟩
      · constructor
        · exact fun h => ⟨df, hdf, h⟩
        · rintro ⟨df', hdf', h⟩
          rw [hdf] at hdf'
          cases hdf'
          exact h
      · refine List.Forall₂.imp (fun e s h => ?_) hout
        obtain ⟨hn, hd, hexact, c, ⟨t, ht, hc⟩, hcells⟩ := h
        refine ⟨hn, hd, hexact, t.cells, ⟨?_, fun _ df' hdf' => ?_⟩, by rw [hcells, hc]⟩
        · rw [← hheight, ← column_len ht]
          rfl
        · rw [hdf] at hdf'
          cases hdf'
          exact ⟨t, ht, rfl⟩
    · constructor
      · rintro ⟨⟨df, h1, h2⟩, df', h1', h3⟩
        rw [h1] at h1'
        cases h1'
        exact ⟨entries, hs, fun _ => ⟨df, h1, h2, h3⟩⟩
      · rintro ⟨entries', hs', h⟩
        rw [hs] at hs'
        cases hs'
        obtain ⟨df, h1, h2, h3⟩ := h hused
        exact ⟨⟨df, h1, h2⟩, df, h1, h3⟩
  · rcases (nestedDfDecl_runs hin).safe with ⟨df, hdf, -⟩ | ⟨f, hf, hrep'⟩
    · rw [hdf, ok_bind, consume_error he]
      exact Runs.throw (fun ⟨entries, hs, _⟩ => by rw [he] at hs; cases hs) hrep
    · rw [hf, error_bind]
      exact Runs.throw (fun ⟨entries, hs, _⟩ => by rw [he] at hs; cases hs) hrep'

/-- The branches without a frame: no slot holds an element. -/
theorem consume_absent {innerCol : String → DataType → Run Series}
    (hin : ctb.impl.Within E flat) {used : Prop} (hused : ¬ used)
    (hflat : flat = xs.reduceOption) (hempty : flat = []) (htotal : total = xs.length)
    (hw : Wraps layers total depth wrapCells)
    (hcol : ∀ n d, ∃ t, innerCol n d = .ok t ∧ t.dtype = d ∧ t.cells = List.replicate total .null) :
    Runs E (consumeNestedColumns ctb layers innerCol) (NestedAnswers ctb flat used)
      (NestedSeries ctb flat used xs depth wrapCells) := by
  rcases schema_cases hin with ⟨entries, hs⟩ | ⟨e, he, hrep⟩
  · have hrow : ∀ e ∈ entries, Runs E (innerCol e.1 e.2) True
        (fun s => s.dtype = e.2 ∧ s.len = total ∧ s.cells = List.replicate total .null) := by
      intro e _
      obtain ⟨t, ht, hd, hc⟩ := hcol e.1 e.2
      rw [ht]
      exact Runs.pure trivial ⟨hd, by rw [Series.len, hc, List.length_replicate], hc⟩
    have hrun := consumeNestedColumns_runs (C := fun _ c => c = List.replicate total .null) hs hw hrow
    refine Runs.mono (Runs.congr hrun ?_) fun _ out hout => ⟨entries, hs, ?_⟩
    · exact iff_of_true (fun _ _ => trivial) ⟨entries, hs, (absurd · hused)⟩
    · refine List.Forall₂.imp (fun e s h => ?_) hout
      obtain ⟨hn, hd, hexact, c, hc, hcells⟩ := h
      refine ⟨hn, hd, hexact, [], ⟨by rw [hempty]; rfl, (absurd · hused)⟩, ?_⟩
      rw [hcells, hc, htotal, gather_empty [] Nested.null (hflat.symm.trans hempty)]
  · rw [consume_error he]
    refine Runs.throw ?_ hrep
    rintro ⟨entries, hs, -⟩
    rw [he] at hs
    cases hs

/-- Every slot is filled: the columns of the frame are the inner columns. -/
theorem direct_column (hflat : flat = xs.reduceOption) (hfull : flat.length = total) (htotal : total = xs.length)
    (df : DataFrame) (e : String × DataType) (hheight : df.height = flat.length) (hin : ColumnWithin E df e) :
    Runs E (buildInnerColDirect df e.1 e.2) (∃ s, df.column e.1 = .ok s ∧ s.dtype = e.2) fun t =>
      t.dtype = e.2 ∧ t.len = total ∧ ∃ s, df.column e.1 = .ok s ∧ t.cells = gather s.cells .null (positions xs) := by
  refine Runs.mono (buildInnerColDirect_runs hin) fun _ t ht => ?_
  obtain ⟨hd, hlen, hcol⟩ := ht
  rw [hheight, hfull] at hlen
  refine ⟨hd, hlen, t, hcol, ?_⟩
  rw [gather_full (by rw [← hflat, hfull, htotal])]
  rw [← htotal]
  exact hlen

/-- Some slots are empty: the columns of the frame are gathered. -/
theorem take_column (hflat : flat = xs.reduceOption) (htotal : total = xs.length) (df : DataFrame)
    (e : String × DataType) (hheight : df.height = flat.length) (hin : ColumnWithin E df e) :
    Runs E (buildInnerColTake df (positions xs) e.1 e.2) (∃ s, df.column e.1 = .ok s ∧ s.dtype = e.2) fun t =>
      t.dtype = e.2 ∧ t.len = total ∧ ∃ s, df.column e.1 = .ok s ∧ t.cells = gather s.cells .null (positions xs) := by
  refine Runs.mono (buildInnerColTake_runs hin (by rw [hheight, hflat])) fun _ t ht => ?_
  obtain ⟨hd, s, hcol, hcells⟩ := ht
  refine ⟨hd, ?_, s, hcol, hcells⟩
  rw [Series.len, hcells, gather_length, positionsFrom_length, htotal]

theorem absent_column (n : String) (dtype : DataType) :
    ∃ t, buildInnerColAllAbsent total n dtype = .ok t ∧ t.dtype = dtype ∧ t.cells = List.replicate total .null :=
  ⟨_, rfl, rfl, by simp⟩

theorem empty_column (h : total = 0) (n : String) (dtype : DataType) :
    ∃ t, buildInnerColEmpty n dtype = .ok t ∧ t.dtype = dtype ∧ t.cells = List.replicate total .null :=
  ⟨_, rfl, rfl, by simp [h]⟩

/-- The frame is asked for when there is an element, and always for a bare field. -/
def FrameUsed (hasInnerOption : Bool) (layers : Option (List ListBuf)) (flat : List Value) : Prop :=
  flat ≠ [] ∨ hasInnerOption = false ∧ layers = none

/-- Whichever branch runs, the columns are those of the answer put back into their slots,
    and otherwise an error is reported. -/
theorem materializeNestedColumns_runs {hasInnerOption : Bool} {s : NestedBufs} (habs : NestedAbs hasInnerOption s xs)
    (htotal : total = xs.length) (hfreeze : shapeFreezeOffsetsBuffers (layers.getD []) = .ok ())
    (hw : Wraps layers total depth wrapCells) (hin : ctb.impl.Within E s.flat) :
    Runs E (materializeNestedColumns ctb s.flat (if hasInnerOption then some s.positions else none) total layers)
      (NestedAnswers ctb s.flat (FrameUsed hasInnerOption layers s.flat))
      (NestedSeries ctb s.flat (FrameUsed hasInnerOption layers s.flat) xs depth wrapCells) := by
  have hdirect (hused : FrameUsed hasInnerOption layers s.flat) (hfull : s.flat.length = total) :=
    consume_frame hin hused hw (direct_column habs.flat hfull htotal)
  have htake (hused : FrameUsed hasInnerOption layers s.flat) :=
    consume_frame hin hused hw (take_column habs.flat htotal)
  have hunused (hnil : s.flat = []) (hkind : ¬ (hasInnerOption = false ∧ layers = none)) :
      ¬ FrameUsed hasInnerOption layers s.flat := by
    rintro (hne | hbare)
    · exact hne hnil
    · exact hkind hbare
  have hisEmpty : s.flat.isEmpty = true ↔ s.flat = [] := List.isEmpty_iff
  cases hasInnerOption with
  | false =>
    have hfull : s.flat.length = total := by rw [habs.flat, habs.full, htotal]
    cases layers with
    | none => exact hdirect (Or.inr ⟨rfl, rfl⟩) hfull
    | some layers =>
      simp only [Option.getD_some] at hfreeze
      simp only [materializeNestedColumns, nestedMaterializeDispatch, Bool.false_eq_true, ite_false,
        Option.isSome_none, Option.getD_some, hfreeze, ok_bind, hisEmpty]
      split
      · rename_i hnil
        have h0 : total = 0 := by rw [← hfull, hnil]; rfl
        exact consume_absent hin (hunused hnil (by simp)) habs.flat hnil htotal hw (empty_column h0)
      · rename_i hne
        exact hdirect (Or.inl hne) hfull
  | true =>
    have hpos := habs.positions rfl
    cases layers with
    | none =>
      simp only [materializeNestedColumns, nestedMaterializeDispatch, ite_true, Option.isSome_some, Option.getD_some,
        hisEmpty, hpos]
      split
      · rename_i hnil
        exact consume_absent hin (hunused hnil (by simp)) habs.flat hnil htotal hw absent_column
      · rename_i hne
        split
        · rename_i hfull
          exact hdirect (Or.inl hne) hfull
        · exact htake (Or.inl hne)
    | some layers =>
      simp only [Option.getD_some] at hfreeze
      simp only [materializeNestedColumns, nestedMaterializeDispatch, ite_true, Option.isSome_some, Option.getD_some,
        hfreeze, ok_bind, hisEmpty, hpos]
      split
      · rename_i h0
        have hnil : s.flat = [] := by
          rw [habs.flat]
          exact List.length_eq_zero_iff.mp (Nat.le_zero.mp (by have := List.reduceOption_length_le xs; omega))
        exact consume_absent hin (hunused hnil (by simp)) habs.flat hnil htotal hw (empty_column h0)
      · split
        · rename_i hnil
          exact consume_absent hin (hunused hnil (by simp)) habs.flat hnil htotal hw absent_column
        · rename_i hne
          split
          · rename_i hfull
            exact hdirect (Or.inl hne) hfull
          · exact htake (Or.inl hne)

end

/-! ## The columns of a batch -/

/-- The series of a batch: columns of the implementation's answer for the elements found in
    the raw items, put back into the rows. -/
def NestedOut (ctb : CollectThenBulk) (item : Value → Option Value) (used : Prop) (depth : Nat) (raws : List Value)
    (rows : List (Nested Value)) (out : List Series) : Prop :=
  ∃ wrapCells : List Cell → List Cell,
    NestedSeries ctb (raws.map item).reduceOption used (raws.map item) depth wrapCells out ∧
    (∀ c, c.length = raws.length → (wrapCells c).length = rows.length) ∧
    ∀ f, wrapCells (raws.map f) = rows.map (Nested.bind f)

/-- Whatever is answered, the columns have the declared names, dtypes and height, and whole lists. -/
theorem NestedOut.entries {ctb : CollectThenBulk} {item : Value → Option Value} {used : Prop} {depth : Nat}
    {raws : List Value} {rows : List (Nested Value)} {out : List Series} (h : NestedOut ctb item used depth raws rows out) :
    ∃ entries, ctb.impl.schema = .ok entries ∧ List.Forall₂ (fun e s =>
      s.name = composeNestedName ctb.namePolicy ctb.name e.1 ∧ s.dtype = wrapListLayers e.2 depth ∧ s.chunk.Exact depth ∧
        s.len = rows.length) entries out := by
  obtain ⟨wrapCells, ⟨entries, hs, hout⟩, hlen, -⟩ := h
  refine ⟨entries, hs, List.Forall₂.imp (fun e s h => ?_) hout⟩
  obtain ⟨hn, hd, hexact, col, -, hcells⟩ := h
  refine ⟨hn, hd, hexact, ?_⟩
  rw [Series.len, hcells]
  exact hlen _ (by simp)

theorem wraps_none : Wraps none total 0 id := fun _ s hd _ => ⟨s, rfl, hd, trivial, rfl⟩

/-- The offsets of filled buffers freeze. -/
theorem freeze_ok {σ : Type} {nullable : VecLayerSpec → Bool} {Abs : σ → List Value → Prop} :
    ∀ {ls : List VecLayerSpec} {st : Bufs σ ls} {xs : List (Nested Value)}, Holds nullable Abs ls st xs →
      shapeFreezeOffsetsBuffers (layerBufs ls st) = .ok ()
  | [], _, _, _ => rfl
  | _ :: _, (b, _), _, h => by
    have hb : offsetsTryFrom b.offsets = .ok b.offsets := if_pos ⟨h.2.1.ne_nil, h.2.1.sorted⟩
    have ih := freeze_ok h.1
    simp only [shapeFreezeOffsetsBuffers] at ih
    simp only [shapeFreezeOffsetsBuffers, layerBufs, List.forM_eq_forM, List.forM_cons, hb, ok_bind] at ih ⊢
    exact ih

theorem wraps_layers {σ : Type} {nullable : VecLayerSpec → Bool} {Abs : σ → List Value → Prop} {l : VecLayerSpec}
    {ls : List VecLayerSpec} {st : Bufs σ (l :: ls)} {xs : List (Nested Value)} (h : Holds nullable Abs (l :: ls) st xs) :
    Wraps (some (layerBufs (l :: ls) st)) (leaves (l :: ls) xs).length (l :: ls).length
      (fun c => Bufs.read (fun _ => c) (l :: ls) st) := by
  intro dtype s hd hlen
  subst hd
  exact shapeAssembleListStack_runs freezes_clone s.physical h hlen

section

variable {E : Fault → Prop} {ctb : CollectThenBulk} {hasInnerOption : Bool} {expr : Operand → Run Operand} {item : Value → Option Value}
  {access : Operand → Run Operand} {read : Operand → Value} {items : List Operand}

/-- The passes over a shape with `Vec` layers. -/
theorem nestedVecEmit_runs {projection : Option LayerProjection} {shape : VecLayers} (hn : shape.Nullable)
    (hopt : shape.hasInnerOption = hasInnerOption)
    (hw : Walks (ReadsElement hasInnerOption expr item) projection shape access read items)
    (hin : ctb.impl.Within E
      ((leaves shape.layers.toList (rowsOf projection shape read items)).map item).reduceOption) :
    Runs E (nestedVecEmit ctb (leafLoop expr (nestedPush hasInnerOption)) projection shape access items)
      (Fits i64Max (fun vs => PositionsFit hasInnerOption (vs.map item).reduceOption) shape.layers.toList
          (rowsOf projection shape read items) ∧
        NestedAnswers ctb ((leaves shape.layers.toList (rowsOf projection shape read items)).map item).reduceOption
          (((leaves shape.layers.toList (rowsOf projection shape read items)).map item).reduceOption ≠ []))
      (NestedOut ctb item
        (((leaves shape.layers.toList (rowsOf projection shape read items)).map item).reduceOption ≠ []) shape.depth
        (leaves shape.layers.toList (rowsOf projection shape read items)) (rowsOf projection shape read items)) := by
  have htotal : Counts.total shape.layers.toList (levels shape.layers.toList (rowsOf projection shape read items)) =
      (leaves shape.layers.toList (rowsOf projection shape read items)).length :=
    total_levels shape.layers.rest shape.layers.first _ (hw.shaped hn)
  simp only [nestedVecEmit, precount_eq hw, ok_bind, htotal]
  have hscan := build_runs (s := ⟨leafLoop expr (nestedPush hasInnerOption), nestedOffsetsPostPush shape, projection⟩)
    rfl (nestedLeafPush expr hopt) hn hw (NestedAbs.new hasInnerOption) (PositionsFit.nil hasInnerOption) trivial
  refine Runs.bind (hscan.weaken hin.data) fun _ st hst => ?_
  have habs := hst.abs
  have hfreeze : shapeFreezeOffsetsBuffers ((some (layerBufs shape.layers.toList st)).getD []) = .ok () := freeze_ok hst
  have hwraps : Wraps (some (layerBufs shape.layers.toList st))
      (leaves shape.layers.toList (rowsOf projection shape read items)).length shape.depth
      (fun c => Bufs.read (fun _ => c) shape.layers.toList st) := by
    rw [VecLayers.depth, ← NonEmpty.length_toList]
    exact wraps_layers hst
  have hread (c : List Cell) := Bufs.read_length (fun _ => c) hst
  have hrows (f : Value → Cell) := Holds.read (fun _ : NestedBufs =>
    (leaves shape.layers.toList (rowsOf projection shape read items)).map f) hst rfl
  simp only at habs
  generalize leaves shape.layers.toList (rowsOf projection shape read items) = raws at *
  have hflat := habs.flat
  have hused : FrameUsed hasInnerOption (some (layerBufs shape.layers.toList st)) (Bufs.leaf _ st).flat =
      ((raws.map item).reduceOption ≠ []) := by
    rw [hflat]
    exact propext (or_iff_left (by simp))
  rw [← hflat] at hin
  have hmat := materializeNestedColumns_runs habs (List.length_map item).symm hfreeze hwraps hin
  rw [hused, hflat] at hmat
  rw [hopt, hflat]
  exact Runs.mono hmat fun _ out hout => ⟨_, hout, hread, hrows⟩

/-- The loop of a shape without `Vec` layers. -/
theorem nestedLoop_runs {bound : Operand → Run Operand} {slot : Operand → Option Value}
    (h : ∀ it ∈ items, ∃ a o, access it = .ok a ∧ bound a = .ok o ∧ LeafReads hasInnerOption o (slot it)) :
    Run.Spec (items.foldlM (fun s it => do nestedPush hasInnerOption s (← bound (← access it))) .new)
      (PositionsFit hasInnerOption (items.map slot).reduceOption) (NestedAbs hasInnerOption · (items.map slot)) := by
  refine Runs.foldlM_grow (I := fun its s => NestedAbs hasInnerOption s (its.map slot)) (R := fun _ => True)
    (F := fun its => PositionsFit hasInnerOption (its.map slot).reduceOption) (fun xs ys hf => ?_) (fun _ _ _ => trivial)
    items [] _ (fun pre it s hit _ hf hs => ?_) trivial (PositionsFit.nil _) (NestedAbs.new _)
  · refine PositionsFit.sublist ?_ hf
    rw [List.map_append, List.reduceOption_append]
    exact List.sublist_append_left _ _
  · obtain ⟨a, o, ha, ho, hr⟩ := h it hit
    simp only [ha, ho, ok_bind, List.map_append, List.map_cons, List.map_nil]
    exact nestedPush_runs hr hs hf

end

/-! ## Batches -/

/-- The series of a batch with the elements `elems`; `cells f` are the cells of a column
    whose elements' cells `f` gives. -/
def NestedBatch (ctb : CollectThenBulk) (used : Prop) (depth : Nat) (elems : List Value)
    (cells : (Value → Cell) → List Cell) (out : List Series) : Prop :=
  ∃ item raws rows, NestedOut ctb item used depth raws rows out ∧ (raws.map item).reduceOption = elems ∧
    ∀ f, rows.map (Nested.bind fun raw => (item raw).elim .null f) = cells f

end DfDerive
