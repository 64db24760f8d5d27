/-
  DfDerive.Codegen.LeafProofs — row-wise columns (see `DfDerive.Codegen.Leaf`).

  `ArmRuns` says that an arm keeps, row by row, the encoding of the value it reads or a
  null, and that its series reads back as those cells after the cast to the column's
  dtype. Every bare arm (`buildLeaf_bare`), every option arm (`buildLeaf_option`) and every
  collapsed chain (`wrapOptionAccessChainPrimitive_runs`) is one, and so is the encoder of
  every column without `Vec` layers (`buildEncoder_leaf`).
-/

import DfDerive.Codegen.Leaf
import DfDerive.Codegen.VecProofs

namespace DfDerive

open Lib

/-! ## Arms -/

/-- The arm stores, for every row, what the leaf's encoder makes of the value `item` finds
    in it; an absent value is a null. -/
def ArmRuns (tr : Traits) (leaf : PrimitiveLeaf) (arm : LeafArm) (name : String) (item : Operand → Option Value)
    (items : List Operand) : Prop :=
  ∃ Abs : LeafBufs → List (Option Prim) → Prop, Abs (arm.decls items.length) [] ∧
    (∀ s xs it, it ∈ items → xs.length < items.length → Abs s xs →
      Pushes tr leaf (arm.push s it) (item it) (fun s y => Abs s (xs ++ [y]))) ∧
    ∀ s xs, xs.length = items.length → Abs s xs →
      ∃ out, arm.series s = .ok out ∧ out.name = name ∧ out.dtype = leaf.dtype ∧
        out.cells = xs.map fun x => Series.castCell leaf.dtype (primCell x)

/-- The access of a field that is always present. -/
def BareAccess (access : Operand → Run Operand) (item : Operand → Option Value) (items : List Operand) : Prop :=
  ∀ it ∈ items, ∃ o u, access it = .ok o ∧ o.strip = .place u ∧ item it = some u

/-- The access of a field below one `Option`. -/
def OptionAccess (access : Operand → Run Operand) (item : Operand → Option Value) (items : List Operand) : Prop :=
  ∀ it ∈ items, ∃ o, access it = .ok o ∧ o.OptionOf (item it)

section

variable {tr : Traits} {leaf : PrimitiveLeaf} {item : Operand → Option Value} {items : List Operand}

theorem castCell_of_ne {d : DataType} (h : d ≠ .time) (c : Cell) : Series.castCell d c = c := by
  unfold Series.castCell
  split
  · rw [if_neg fun hc => h hc.1]
  · rfl

theorem withChunk_ok (name : String) (dtype : DataType) {a : ArrowArray} (h : a.dtype = dtype.physicalArrow) :
    ∃ out, Series.withChunk name dtype a = .ok out ∧ out.name = name ∧ out.dtype = dtype ∧ out.cells = a.cells :=
  ⟨⟨name, dtype, a, h⟩, dif_pos h, rfl, rfl, rfl⟩

/-- A pushed row, by whether the value is there. -/
theorem Pushes.of_some {σ : Type} {r : Run σ} {u : Value} {Q : σ → Option Prim → Prop}
    (hok : ∀ p, leaf.encode tr u = .ok p → ∃ s, r = .ok s ∧ Q s (some p))
    (herr : ∀ e, leaf.encode tr u = .error e → r = .error e) : Pushes tr leaf r (some u) Q := by
  refine ⟨fun v e hv he => ?_, fun y hy _ => ?_⟩
  · cases hv; exact herr e he
  · obtain ⟨henc, hsome⟩ := hy u rfl
    obtain ⟨p, rfl⟩ := Option.isSome_iff_exists.mp hsome
    exact hok p henc

theorem Pushes.of_none {σ : Type} {r : Run σ} {Q : σ → Option Prim → Prop} (hok : ∃ s, r = .ok s ∧ Q s none) :
    Pushes tr leaf r none Q := by
  refine ⟨fun v e hv => (by cases hv), fun y _ hy => ?_⟩
  rw [hy rfl]
  exact hok

/-! ### Bare arms -/

/-- A buffer of present values. -/
def BareAbs (s : LeafBufs) (xs : List (Option Prim)) : Prop :=
  s.buf = xs.map (·.getD (.int 0)) ∧ ∀ x ∈ xs, x.isSome = true

theorem BareAbs.push {s : LeafBufs} {xs : List (Option Prim)} (h : BareAbs s xs) (p : Prim) (scratch : String) :
    BareAbs { s with buf := s.buf ++ [p], scratch } (xs ++ [some p]) := by
  refine ⟨by simp [h.1], fun x hx => ?_⟩
  rcases List.mem_append.mp hx with hx | hx
  · exact h.2 x hx
  · rw [List.mem_singleton.mp hx]; rfl

theorem BareAbs.new : BareAbs .new [] := ⟨rfl, by simp⟩

theorem BareAbs.cells {s : LeafBufs} {xs : List (Option Prim)} (h : BareAbs s xs) : s.buf.map .val = xs.map primCell := by
  rw [h.1]
  exact bareArray (g := (·.getD (.int 0))) (by simp) h.2 .null

/-- A value expression gives what the leaf's encoder gives, with the scratch buffer it left. -/
def ReadsEncoding (tr : Traits) (leaf : PrimitiveLeaf) (r : Run (Prim × String)) (u : Value) : Prop :=
  ∃ left : Prim → String, r = do
    let p ← leaf.encode tr u
    .ok (p, left p)

theorem ReadsEncoding.ok {r : Run (Prim × String)} {u : Value} (h : ReadsEncoding tr leaf r u) {p : Prim}
    (hp : leaf.encode tr u = .ok p) : ∃ scratch, r = .ok (p, scratch) := by
  obtain ⟨left, rfl⟩ := h
  exact ⟨left p, by rw [hp, ok_bind]⟩

theorem ReadsEncoding.error {r : Run (Prim × String)} {u : Value} (h : ReadsEncoding tr leaf r u) {e : Fault}
    (he : leaf.encode tr u = .error e) : r = .error e := by
  obtain ⟨left, rfl⟩ := h
  rw [he, error_bind]

/-- An arm that pushes one value a row. -/
theorem bareArm {arm : LeafArm} {name : String} {access : Operand → Run Operand}
    (value : String → Operand → Run (Prim × String)) (ha : BareAccess access item items)
    (hdecls : ∀ n, arm.decls n = .new)
    (hpush : ∀ s it, arm.push s it = (do
      let o ← access it
      let (p, scratch) ← value s.scratch o
      Except.ok { s with buf := s.buf ++ [p], scratch }))
    (hvalue : ∀ scratch o u, o.strip = .place u → ReadsEncoding tr leaf (value scratch o) u)
    (hseries : ∀ s xs, BareAbs s xs → ∃ out, arm.series s = .ok out ∧ out.name = name ∧ out.dtype = leaf.dtype ∧
      out.cells = xs.map fun x => Series.castCell leaf.dtype (primCell x)) :
    ArmRuns tr leaf arm name item items := by
  refine ⟨BareAbs, by rw [hdecls]; exact BareAbs.new, fun s xs it hit _ h => ?_, fun s xs _ h => hseries s xs h⟩
  obtain ⟨o, u, ho, hu, hx⟩ := ha it hit
  have hv := hvalue s.scratch o u hu
  rw [hx, hpush]
  refine Pushes.of_some (fun p hp => ?_) fun e he => ?_
  · obtain ⟨scratch, hval⟩ := hv.ok hp
    exact ⟨_, by simp only [ho, ok_bind, hval], h.push p scratch⟩
  · simp only [ho, ok_bind, hv.error he, error_bind]

theorem bareSeries {name : String} (dtype : DataType) {native : ArrowDataType} (hn : native = dtype.physicalArrow)
    (ht : dtype ≠ .time) {s : LeafBufs} {xs : List (Option Prim)} (h : BareAbs s xs) :
    ∃ out, Series.withChunk name dtype (.flat native s.buf none) = .ok out ∧ out.name = name ∧ out.dtype = dtype ∧
      out.cells = xs.map fun x => Series.castCell dtype (primCell x) := by
  obtain ⟨out, hout, hname, hdtype, hcells⟩ := withChunk_ok name dtype (a := .flat native s.buf none) hn
  refine ⟨out, hout, hname, hdtype, ?_⟩
  rw [hcells]
  simp only [castCell_of_ne ht]
  exact h.cells

/-! ### Option arms over view arrays -/

/-- The value matched by an option arm: none for an absent field, else the encoding. -/
def ReadsOption (tr : Traits) (leaf : PrimitiveLeaf) (r : Run (Option (Prim × String))) : Option Value → Prop
  | none => r = .ok none
  | some u => ∃ left : Prim → String, r = do
    let p ← leaf.encode tr u
    .ok (some (p, left p))

theorem viewOptionArm {ctx : LeafCtx} {dtype : DataType} {empty : Prim}
    {bareValue : String → Operand → Run (Prim × String)} {optionValue : String → Operand → Run (Option (Prim × String))}
    {receiver : PrimitiveExprReceiver} (ha : OptionAccess ctx.access item items)
    (hvalue : ∀ scratch o x, o.OptionOf x → ReadsOption tr leaf (optionValue scratch o) x) (hd : leaf.dtype = dtype)
    (ht : dtype ≠ .time) :
    ArmRuns tr leaf (viewLeaf ctx dtype empty bareValue optionValue (.option receiver)) ctx.name item items := by
  refine ⟨fun s xs => Prefilled Option.isSome true items.length s.validity xs ∧ s.buf = xs.map (·.getD empty) ∧
    s.rowIdx = xs.length, ⟨Prefilled.nil, rfl, rfl⟩, fun s xs it hit hlt h => ?_, fun s xs hlen h => ?_⟩
  · obtain ⟨hvalid, hbuf, hidx⟩ := h
    obtain ⟨o, ho, hopt⟩ := ha it hit
    have hv := hvalue s.scratch o (item it) hopt
    cases hx : item it with
    | none =>
      rw [hx] at hv
      have hv : optionValue s.scratch o = .ok none := hv
      obtain ⟨bits, hset, hbits⟩ := hvalid.set hlt (x := none) (b := false) rfl
      rw [← hidx] at hset
      refine Pushes.of_none ⟨{ s with buf := s.buf ++ [empty], validity := bits, rowIdx := s.rowIdx + 1 }, ?_, hbits, ?_, ?_⟩
      · simp only [viewLeaf, ho, ok_bind, hv, hset]
      · simp [hbuf]
      · simp [hidx]
    | some u =>
      rw [hx] at hv
      obtain ⟨left, hv⟩ := hv
      refine Pushes.of_some (fun p hp => ?_) fun e he => ?_
      · rw [hp, ok_bind] at hv
        refine ⟨{ s with buf := s.buf ++ [p], scratch := left p, rowIdx := s.rowIdx + 1 }, ?_, hvalid.skip hlt rfl, ?_, ?_⟩
        · simp only [viewLeaf, ho, ok_bind, hv]
        · simp [hbuf]
        · simp [hidx]
      · rw [he, error_bind] at hv
        simp only [viewLeaf, ho, ok_bind, hv, error_bind]
  · obtain ⟨hvalid, hbuf, -⟩ := h
    obtain ⟨a, harr, had, hac⟩ := maskedArray (x := xs) (g := (·.getD empty)) (by simp) dtype.physicalArrow
    obtain ⟨out, hout, hname, hdtype, hcells⟩ := withChunk_ok ctx.name dtype had
    refine ⟨out, ?_, hname, hdtype.trans hd.symm, ?_⟩
    · simp only [viewLeaf, hbuf, hvalid.full hlen, harr, ok_bind, hout]
    · rw [hcells, hac, hd]
      simp only [castCell_of_ne ht]

/-- `match &(access)` binds the value of an `Option`. -/
theorem matchRef_reads {o : Operand} {x : Option Value} {value : Operand → Run (Prim × String)} (h : o.OptionOf x)
    (hv : ∀ v u, v.strip = .place u → ReadsEncoding tr leaf (value v) u) :
    ReadsOption tr leaf (matchRef o value) x := by
  have hm := h.ref.matches
  cases x with
  | none =>
    have hm : (Operand.ref o).matchOption = .ok none := hm
    show matchRef o value = .ok none
    simp only [matchRef, hm, ok_bind]
  | some u =>
    obtain ⟨p, hp, hs⟩ := hm
    obtain ⟨left, hval⟩ := hv p u hs
    refine ⟨left, ?_⟩
    simp only [matchRef, hp, ok_bind, hval, bind_assoc]

/-! ### The leaves -/

theorem value_place {o : Operand} {u : Value} (h : o.strip = .place u) : o.value = .ok u := Operand.value_of_strip h

theorem numericLeaf_bare {ctx : LeafCtx} {kind : NumericKind} (ha : BareAccess ctx.access item items) :
    ArmRuns tr (.numeric kind) (numericLeaf ctx kind .bare) ctx.name item items := by
  have ht : (numericInfoFor kind).dtype ≠ .time := by unfold numericInfoFor; split <;> simp
  refine bareArm (fun scratch access => do
    let v ← if kind.isNonzero || (numericInfoFor kind).widenFrom then numericStoredValue kind (← access.value)
      else nativeValue (← access.value)
    Except.ok (v, scratch)) ha (fun _ => rfl) (fun s it => ?_) (fun scratch o u hu => ?_)
    (fun s xs h => bareSeries _ (numericInfoFor_native kind) ht h)
  · simp only [numericLeaf]
    refine bind_congr fun o => ?_
    split <;> simp only [bind_assoc, ok_bind]
  · refine ⟨fun _ => scratch, ?_⟩
    simp only [value_place hu, ok_bind, PrimitiveLeaf.encode]
    split
    · rfl
    · rename_i hn
      have hz : kind.isNonzero = false := by
        cases h : kind.isNonzero with
        | false => rfl
        | true => exact absurd (by simp [h]) hn
      simp only [numericStoredValue, hz, Bool.false_eq_true, ite_false, ok_bind]

theorem numericLeaf_option {ctx : LeafCtx} {kind : NumericKind} (receiver : PrimitiveExprReceiver)
    (ha : OptionAccess ctx.access item items) :
    ArmRuns tr (.numeric kind) (numericLeaf ctx kind (.option receiver)) ctx.name item items := by
  have ht : (numericInfoFor kind).dtype ≠ .time := by unfold numericInfoFor; split <;> simp
  refine ⟨fun s xs => s.buf = xs.map (·.getD (nativeDefault (numericInfoFor kind).native)) ∧
    s.validity = xs.map Option.isSome, ⟨rfl, rfl⟩, fun s xs it hit _ h => ?_, fun s xs _ h => ?_⟩
  · obtain ⟨hbuf, hvalid⟩ := h
    obtain ⟨o, ho, hopt⟩ := ha it hit
    have hm := hopt.matches
    cases hx : item it with
    | none =>
      rw [hx] at hm
      have hm : o.matchOption = .ok none := hm
      exact Pushes.of_none ⟨_, by simp only [numericLeaf, ho, ok_bind, hm]; rfl, by simp [hbuf], by simp [hvalid]⟩
    | some u =>
      rw [hx] at hm
      obtain ⟨q, hq, hs⟩ := hm
      refine Pushes.of_some (fun p hp => ?_) fun e he => ?_
      · have hp : numericStoredValue kind u = .ok p := hp
        exact ⟨_, by simp only [numericLeaf, ho, ok_bind, hq, value_place hs, hp]; rfl, by simp [hbuf], by simp [hvalid]⟩
      · have he : numericStoredValue kind u = .error e := he
        simp only [numericLeaf, ho, ok_bind, hq, value_place hs, he, error_bind]
  · obtain ⟨hbuf, hvalid⟩ := h
    obtain ⟨a, harr, had, hac⟩ := maskedArray (x := xs)
      (g := (·.getD (nativeDefault (numericInfoFor kind).native))) (by simp) (numericInfoFor kind).native
    obtain ⟨out, hout, hname, hdtype, hcells⟩ := withChunk_ok ctx.name _ (had.trans (numericInfoFor_native kind))
    refine ⟨out, by simp only [numericLeaf, hbuf, hvalid, harr, ok_bind, hout], hname, hdtype, ?_⟩
    rw [hcells, hac]
    exact List.map_congr_left fun x _ => (castCell_of_ne ht _).symm

theorem boolLeaf_bare {ctx : LeafCtx} (ha : BareAccess ctx.access item items) :
    ArmRuns tr .bool (boolLeaf ctx .bare) ctx.name item items := by
  refine bareArm (fun scratch access => do Except.ok (.bool (← boolOf access), scratch)) ha (fun _ => rfl)
    (fun s it => ?_) (fun scratch o u hu => ?_) (fun s xs h => ?_)
  · simp only [boolLeaf, bind_assoc, ok_bind]
  · refine ⟨fun _ => scratch, ?_⟩
    simp only [boolOf, value_place hu, ok_bind, PrimitiveLeaf.encode]
    cases u with
    | scalar c => cases c <;> rfl
    | none => rfl
    | some _ => rfl
    | ptr _ => rfl
    | vec _ => rfl
    | tuple _ => rfl
    | struct _ => rfl
  · refine ⟨_, rfl, rfl, rfl, ?_⟩
    rw [Series.ofCells_cells, h.cells]
    exact List.map_congr_left fun x _ => (castCell_of_ne (by simp [PrimitiveLeaf.dtype, PrimitiveLeaf.logical, LogicalPrimitive.dtype]) _).symm

theorem boolLeaf_option {ctx : LeafCtx} (receiver : PrimitiveExprReceiver) (ha : OptionAccess ctx.access item items) :
    ArmRuns tr .bool (boolLeaf ctx (.option receiver)) ctx.name item items := by
  refine ⟨fun s xs => Prefilled Option.isSome true items.length s.validity xs ∧
    Prefilled boolBit false items.length s.bits xs ∧ s.rowIdx = xs.length ∧ ∀ p, some p ∈ xs → ∃ b, p = .bool b,
    ⟨Prefilled.nil, Prefilled.nil, rfl, by simp⟩, fun s xs it hit hlt h => ?_, fun s xs hlen h => ?_⟩
  · obtain ⟨hvalid, hbits, hidx, hbools⟩ := h
    obtain ⟨o, ho, hopt⟩ := ha it hit
    have hm := hopt.matches
    cases hx : item it with
    | none =>
      rw [hx] at hm
      have hm : o.matchOption = .ok none := hm
      obtain ⟨bits, hset, hv⟩ := hvalid.set hlt (x := none) (b := false) rfl
      rw [← hidx] at hset
      refine Pushes.of_none ⟨{ s with validity := bits, rowIdx := s.rowIdx + 1 }, ?_, hv, hbits.skip hlt rfl, by simp [hidx],
        bools_append hbools (by simp)⟩
      simp only [boolLeaf, ho, ok_bind, hm, hset]
    | some u =>
      rw [hx] at hm
      obtain ⟨q, hq, hs⟩ := hm
      obtain ⟨hok, herr⟩ := boolOf_eq tr (value_place hs)
      refine Pushes.of_some (fun p hp => ?_) fun e he => ?_
      · obtain ⟨b, hb, rfl⟩ := bool_encode hp
        obtain ⟨bits, hset, hskip, hv⟩ := hbits.bit hlt b
        rw [← hidx] at hset
        refine ⟨{ s with bits, rowIdx := s.rowIdx + 1 }, ?_, hvalid.skip hlt rfl, hv, by simp [hidx],
          bools_append hbools (by simp)⟩
        simp only [boolLeaf, ho, ok_bind, hq, hok b hb]
        cases b with
        | true => simp only [ite_true, hset rfl, ok_bind]
        | false => simp only [Bool.false_eq_true, ite_false, hskip rfl]
      · simp only [boolLeaf, ho, ok_bind, hq, herr e he, error_bind]
  · obtain ⟨hvalid, hbits, -, hbools⟩ := h
    have hg : ∀ p, some p ∈ xs → Prim.bool (boolBit (some p)) = p := by
      intro p hp
      obtain ⟨b, rfl⟩ := hbools p hp
      rfl
    obtain ⟨a, harr, had, hac⟩ := maskedArray (g := fun x => Prim.bool (boolBit x)) hg .boolean
    obtain ⟨out, hout, hname, hdtype, hcells⟩ := withChunk_ok ctx.name .boolean had
    refine ⟨out, ?_, hname, hdtype, ?_⟩
    · simp only [boolLeaf, hbits.full hlen, hvalid.full hlen, List.map_map]
      simp only [Function.comp_def, harr, ok_bind, hout]
    · rw [hcells, hac]
      exact List.map_congr_left fun x _ => (castCell_of_ne (by simp [PrimitiveLeaf.dtype, PrimitiveLeaf.logical, LogicalPrimitive.dtype]) _).symm

theorem view_bare {ctx : LeafCtx} {dtype : DataType} {empty : Prim} {bareValue : String → Operand → Run (Prim × String)}
    {optionValue : String → Operand → Run (Option (Prim × String))} (ha : BareAccess ctx.access item items)
    (hvalue : ∀ scratch o u, o.strip = .place u → ReadsEncoding tr leaf (bareValue scratch o) u)
    (hd : leaf.dtype = dtype) (ht : dtype ≠ .time) :
    ArmRuns tr leaf (viewLeaf ctx dtype empty bareValue optionValue .bare) ctx.name item items := by
  subst hd
  exact bareArm bareValue ha (fun _ => rfl) (fun s it => rfl) hvalue fun s xs h => bareSeries _ rfl ht h

theorem string_reads (read : Value → Run String) {o : Operand} {u : Value} (hu : o.strip = .place u)
    (hl : leaf.encode tr u = do Except.ok (Prim.str (← read u))) (scratch : String) :
    ReadsEncoding tr leaf (do Except.ok (Prim.str (← read (← o.value)), scratch)) u := by
  refine ⟨fun _ => scratch, ?_⟩
  simp only [value_place hu, ok_bind, hl, bind_assoc]

theorem bytes_reads {o : Operand} {u : Value} (hu : o.strip = .place u) (scratch : String) :
    ReadsEncoding tr .binary (do Except.ok (Prim.bytes (← asRefBytes (← o.value)), scratch)) u := by
  refine ⟨fun _ => scratch, ?_⟩
  simp only [value_place hu, ok_bind, PrimitiveLeaf.encode, bind_assoc]

theorem display_reads {o : Operand} {u : Value} (hu : o.strip = .place u) (scratch : String) :
    ReadsEncoding tr .asString (do
      let text ← displayInto tr scratch (← o.value)
      Except.ok (Prim.str text, text)) u := by
  refine ⟨fun p => match p with | .str text => text | _ => "", ?_⟩
  simp only [value_place hu, ok_bind, PrimitiveLeaf.encode, bind_assoc, displayInto, scratchClear]

theorem stringyCollapsed_none {base : StringyBase} {o : Operand} (h : o.Holds none) :
    stringyCollapsed tr base o = .ok none := by
  rw [Operand.Holds] at h
  subst h
  rfl

theorem stringyCollapsed_some {base : StringyBase} {o : Operand} {u : Value} (h : o.Holds (some u)) :
    stringyCollapsed tr base o = (do Except.ok (some (← asRefStr tr base u))) := by
  obtain ⟨p, rfl, hp⟩ := h
  simp only [stringyCollapsed, hp.value, ok_bind]

theorem asStrOption_reads {base : StringyBase} {o : Operand} {x : Option Value} (h : o.OptionOf x) (scratch : String) :
    ReadsOption tr (.asStr base)
      (do Except.ok ((← stringyOptionDeref tr base o).map fun text => (Prim.str text, scratch))) x := by
  obtain ⟨e, he, hh⟩ := h.asRef
  cases x with
  | none =>
    show _ = Except.ok none
    simp only [stringyOptionDeref, he, ok_bind, stringyCollapsed_none hh, Option.map_none]
  | some u =>
    refine ⟨fun _ => scratch, ?_⟩
    simp only [stringyOptionDeref, he, ok_bind, stringyCollapsed_some hh, PrimitiveLeaf.encode, bind_assoc, Option.map_some]

/-- The string-like and binary leaves push their encoding into a view array. -/
theorem stringLeaf_bare {ctx : LeafCtx} (ha : BareAccess ctx.access item items) :
    ArmRuns tr .string (stringLeaf ctx .bare) ctx.name item items := by
  unfold stringLeaf
  exact view_bare ha (fun scratch o u hu => string_reads stringAsStr hu rfl scratch) rfl (by simp)

theorem binaryLeaf_bare {ctx : LeafCtx} (ha : BareAccess ctx.access item items) :
    ArmRuns tr .binary (binaryLeaf ctx .bare) ctx.name item items := by
  unfold binaryLeaf
  exact view_bare ha (fun scratch o u hu => bytes_reads hu scratch) rfl (by simp)

theorem asStringLeaf_bare {ctx : LeafCtx} (hctx : ctx.traits = tr) (ha : BareAccess ctx.access item items) :
    ArmRuns tr .asString (asStringLeaf ctx .bare) ctx.name item items := by
  subst hctx
  unfold asStringLeaf
  exact view_bare ha (fun scratch o u hu => display_reads hu scratch) rfl (by simp)

theorem asStrLeaf_bare {ctx : LeafCtx} {base : StringyBase} (hctx : ctx.traits = tr)
    (ha : BareAccess ctx.access item items) : ArmRuns tr (.asStr base) (asStrLeaf ctx base .bare) ctx.name item items := by
  subst hctx
  unfold asStrLeaf
  refine view_bare ha (fun scratch o u hu => ?_) rfl (by simp)
  have hl : (PrimitiveLeaf.asStr base).encode ctx.traits u = (do
      Except.ok (Prim.str (← asRefStr ctx.traits base u))) := rfl
  have hr := string_reads (asRefStr ctx.traits base) (o := .ref o) hu hl scratch
  simpa only [stringyBare, bind_assoc] using hr

theorem stringLeaf_option {ctx : LeafCtx} (receiver : PrimitiveExprReceiver) (ha : OptionAccess ctx.access item items) :
    ArmRuns tr .string (stringLeaf ctx (.option receiver)) ctx.name item items := by
  unfold stringLeaf
  refine viewOptionArm ha (fun scratch o x h => ?_) rfl (by simp)
  exact matchRef_reads h fun v u hu => string_reads stringAsStr hu rfl scratch

theorem binaryLeaf_option {ctx : LeafCtx} (receiver : PrimitiveExprReceiver) (ha : OptionAccess ctx.access item items) :
    ArmRuns tr .binary (binaryLeaf ctx (.option receiver)) ctx.name item items := by
  unfold binaryLeaf
  refine viewOptionArm ha (fun scratch o x h => ?_) rfl (by simp)
  exact matchRef_reads h fun v u hu => bytes_reads hu scratch

theorem asStringLeaf_option {ctx : LeafCtx} (receiver : PrimitiveExprReceiver) (hctx : ctx.traits = tr)
    (ha : OptionAccess ctx.access item items) :
    ArmRuns tr .asString (asStringLeaf ctx (.option receiver)) ctx.name item items := by
  subst hctx
  unfold asStringLeaf
  refine viewOptionArm ha (fun scratch o x h => ?_) rfl (by simp)
  exact matchRef_reads h fun v u hu => display_reads hu scratch

theorem asStrLeaf_option {ctx : LeafCtx} {base : StringyBase} (receiver : PrimitiveExprReceiver) (hctx : ctx.traits = tr)
    (ha : OptionAccess ctx.access item items) :
    ArmRuns tr (.asStr base) (asStrLeaf ctx base (.option receiver)) ctx.name item items := by
  subst hctx
  unfold asStrLeaf
  exact viewOptionArm ha (fun scratch o x h => asStrOption_reads h scratch) rfl (by simp)

theorem transform_dtype {t : ScalarTransform} (h : leaf.transform = some t) : leaf.dtype = t.dtype := by
  cases leaf <;> simp only [PrimitiveLeaf.transform, Option.some.injEq, reduceCtorEq] at h <;> subst h <;> rfl

/-- A mapped leaf pushed as a present value. -/
theorem mapped_bare {ctx : LeafCtx} {t : ScalarTransform} (ht : leaf.transform = some t) (hctx : ctx.traits = tr)
    {series : LeafBufs → Run Series} (ha : BareAccess ctx.access item items)
    (hseries : ∀ s xs, BareAbs s xs → ∃ out, series s = .ok out ∧ out.name = ctx.name ∧ out.dtype = leaf.dtype ∧
      out.cells = xs.map fun x => Series.castCell leaf.dtype (primCell x)) :
    ArmRuns tr leaf ⟨fun _ => .new, mappedPush ctx t .bare, series⟩ ctx.name item items := by
  subst hctx
  refine bareArm (fun scratch access => do Except.ok (← mapPrimitiveExpr ctx.traits access .place t, scratch))
    ha (fun _ => rfl) (fun s it => ?_) (fun scratch o u hu => ?_) hseries
  · simp only [mappedPush, bind_assoc, ok_bind]
  · refine ⟨fun _ => scratch, ?_⟩
    rw [mapPrimitiveExpr_eq ctx.traits ht (value_place hu) rfl (value_place (o := .ref o) hu)]

theorem mapped_option {ctx : LeafCtx} {t : ScalarTransform} (ht : leaf.transform = some t) (hctx : ctx.traits = tr)
    {series : LeafBufs → Run Series} {receiver : PrimitiveExprReceiver} (ha : OptionAccess ctx.access item items)
    (hr : receiver ≠ .place)
    (hseries : ∀ s xs, s.options = xs → ∃ out, series s = .ok out ∧ out.name = ctx.name ∧ out.dtype = leaf.dtype ∧
      out.cells = xs.map fun x => Series.castCell leaf.dtype (primCell x)) :
    ArmRuns tr leaf ⟨fun _ => .new, mappedPush ctx t (.option receiver), series⟩ ctx.name item items := by
  subst hctx
  refine ⟨fun s xs => s.options = xs, rfl, fun s xs it hit _ h => ?_, fun s xs _ h => hseries s xs h⟩
  obtain ⟨o, ho, hopt⟩ := ha it hit
  have hm := hopt.matches
  cases hx : item it with
  | none =>
    rw [hx] at hm
    have hm : o.matchOption = .ok none := hm
    refine Pushes.of_none ⟨{ s with options := s.options ++ [none] }, ?_, by rw [h]⟩
    simp only [mappedPush, ho, ok_bind, matchRef, Operand.matchOption, hm, Option.map_none]
  | some u =>
    rw [hx] at hm
    obtain ⟨q, hq, hs⟩ := hm
    have hmap : mapPrimitiveExpr ctx.traits (.ref q) receiver t = leaf.encode ctx.traits u := by
      cases receiver with
      | place => exact absurd rfl hr
      | ref => exact mapPrimitiveExpr_eq ctx.traits ht (value_place hs) rfl (value_place hs)
      | refRef => exact mapPrimitiveExpr_eq ctx.traits ht (value_place hs) rfl (value_place hs)
    refine Pushes.of_some (fun p hp => ⟨{ s with options := s.options ++ [some p] }, ?_, by rw [h]⟩) fun e he => ?_
    · simp only [mappedPush, ho, ok_bind, matchRef, Operand.matchOption, hq, Option.map_some, hmap, hp]
    · simp only [mappedPush, ho, ok_bind, matchRef, Operand.matchOption, hq, Option.map_some, hmap, he, error_bind]

/-- The series of a cast leaf. -/
theorem castSeries {name : String} {t : ScalarTransform} {native : DataType} (ht : leaf.transform = some t)
    {cells : List Cell} {xs : List (Option Prim)} (hcells : cells = xs.map primCell) :
    ∃ out, (Series.ofCells name native cells).cast t.dtype = .ok out ∧ out.name = name ∧ out.dtype = leaf.dtype ∧
      out.cells = xs.map fun x => Series.castCell leaf.dtype (primCell x) := by
  refine ⟨_, rfl, rfl, (transform_dtype ht).symm, ?_⟩
  rw [Series.ofCells_cells, Series.ofCells_cells, hcells, List.map_map, transform_dtype ht]
  rfl

theorem cast_bare {ctx : LeafCtx} {t : ScalarTransform} {native : DataType} (ht : leaf.transform = some t)
    (hctx : ctx.traits = tr) (ha : BareAccess ctx.access item items) :
    ArmRuns tr leaf (mappedCastLeaf ctx t native .bare) ctx.name item items :=
  mapped_bare ht hctx ha fun _ _ h => castSeries ht h.cells

theorem cast_option {ctx : LeafCtx} {t : ScalarTransform} {native : DataType} {receiver : PrimitiveExprReceiver}
    (ht : leaf.transform = some t) (hctx : ctx.traits = tr) (ha : OptionAccess ctx.access item items)
    (hr : receiver ≠ .place) :
    ArmRuns tr leaf (mappedCastLeaf ctx t native (.option receiver)) ctx.name item items :=
  mapped_option ht hctx ha hr fun _ _ h => castSeries ht (by rw [h])

/-- Every leaf's bare arm. -/
theorem buildLeaf_bare {ctx : LeafCtx} (leaf : PrimitiveLeaf) (hctx : ctx.traits = tr)
    (ha : BareAccess ctx.access item items) : ArmRuns tr leaf (buildLeaf ctx leaf .bare) ctx.name item items := by
  cases leaf with
  | numeric kind => exact numericLeaf_bare ha
  | string => exact stringLeaf_bare ha
  | bool => exact boolLeaf_bare ha
  | binary => exact binaryLeaf_bare ha
  | dateTime unit => exact cast_bare rfl hctx ha
  | naiveDateTime unit => exact cast_bare rfl hctx ha
  | naiveDate => exact cast_bare rfl hctx ha
  | naiveTime => exact cast_bare rfl hctx ha
  | duration unit source => exact cast_bare rfl hctx ha
  | decimal precision scale =>
    exact mapped_bare rfl hctx ha fun s xs h => bareSeries (.decimal precision scale) rfl (by simp) h
  | asString => exact asStringLeaf_bare hctx ha
  | asStr base => exact asStrLeaf_bare hctx ha

/-- Every leaf's option arm. -/
theorem buildLeaf_option (ctx : LeafCtx) (leaf : PrimitiveLeaf) (hctx : ctx.traits = tr)
    (receiver : PrimitiveExprReceiver) (hr : receiver ≠ .place) (ha : OptionAccess ctx.access item items) :
    ArmRuns tr leaf (buildLeaf ctx leaf (.option receiver)) ctx.name item items := by
  cases leaf with
  | numeric kind => exact numericLeaf_option receiver ha
  | string => exact stringLeaf_option receiver ha
  | bool => exact boolLeaf_option receiver ha
  | binary => exact binaryLeaf_option receiver ha
  | dateTime unit => exact cast_option rfl hctx ha hr
  | naiveDateTime unit => exact cast_option rfl hctx ha hr
  | naiveDate => exact cast_option rfl hctx ha hr
  | naiveTime => exact cast_option rfl hctx ha hr
  | duration unit source => exact cast_option rfl hctx ha hr
  | decimal precision scale =>
    refine mapped_option rfl hctx ha hr fun s xs h => ⟨_, rfl, rfl, rfl, ?_⟩
    rw [Series.ofCells_cells, h]
    exact List.map_congr_left fun x _ => (castCell_of_ne (d := .decimal precision scale) (by simp) _).symm
  | asString => exact asStringLeaf_option receiver hctx ha
  | asStr base => exact asStrLeaf_option receiver hctx ha

/-! ### Collapsed chains -/

/-- The access of a field whose chain is collapsed before the arm. -/
def ChainAccess (P : Value → Prop) (access : Operand → Run Operand) (chain : AccessChain) (read : Operand → Value)
    (items : List Operand) : Prop :=
  ∀ it ∈ items, ∃ o, access it = .ok o ∧ ChainBase chain.steps (.ref o) (read it) ∧ HasWord P chain.word (read it)

theorem multiOptionLocal_access {P : Value → Prop} {ctx : LeafCtx} {chain : AccessChain} {read : Operand → Value}
    (leaf : PrimitiveLeaf) (hpos : 0 < chain.optionLayers) (h : ChainAccess P ctx.access chain read items) :
    OptionAccess (multiOptionLocal ctx leaf chain) (fun it => chainFold chain.steps (read it)) items := by
  intro it hit
  obtain ⟨o, ho, hb, ht⟩ := h it hit
  obtain ⟨e, he, hh⟩ := accessChainToOptionRef_spec hpos hb ht
  unfold multiOptionLocal
  simp only [ho, ok_bind, he]
  split
  · exact hh.copied
  · exact ⟨e, rfl, hh.optionOf⟩

/-- The collapsed `Option<&str>` of an `as_str` leaf below more than one plain `Option`. -/
theorem wrapOptionAccessChainAsStr_runs {P : Value → Prop} {ctx : LeafCtx} {base : StringyBase} {chain : AccessChain}
    {read : Operand → Value} (hctx : ctx.traits = tr) (hpos : 0 < chain.optionLayers)
    (hmany : chain.isSinglePlainOption = false) (h : ChainAccess P ctx.access chain read items) :
    ArmRuns tr (.asStr base) (wrapOptionAccessChainAsStr ctx base chain) ctx.name
      (fun it => chainFold chain.steps (read it)) items := by
  subst hctx
  refine ⟨fun s xs => s.options = xs, rfl, fun s xs it hit _ hs => ?_, fun s xs _ hs => ⟨_, rfl, rfl, rfl, ?_⟩⟩
  · obtain ⟨o, ho, hb, ht⟩ := h it hit
    obtain ⟨e, he, hh⟩ := accessChainToRef_holds hpos hmany hb ht
    have hs : s.options = xs := hs
    show Pushes _ _ _ (chainFold chain.steps (read it)) fun (s : LeafBufs) y => s.options = xs ++ [y]
    cases hx : chainFold chain.steps (read it) with
    | none =>
      rw [hx] at hh
      refine Pushes.of_none ⟨{ s with options := s.options ++ [none] }, ?_, by rw [hs]⟩
      simp only [wrapOptionAccessChainAsStr, ho, ok_bind, he, stringyCollapsed_none hh, Option.map_none]
    | some u =>
      rw [hx] at hh
      refine Pushes.of_some (fun p hp => ?_) fun f hf => ?_
      · simp only [PrimitiveLeaf.encode] at hp
        cases ha : asRefStr ctx.traits base u with
        | error f => rw [ha] at hp; cases hp
        | ok text =>
          rw [ha] at hp
          cases hp
          refine ⟨{ s with options := s.options ++ [some (.str text)] }, ?_, by rw [hs]⟩
          simp only [wrapOptionAccessChainAsStr, ho, ok_bind, he, stringyCollapsed_some hh, ha, Option.map_some]
      · simp only [PrimitiveLeaf.encode] at hf
        cases ha : asRefStr ctx.traits base u with
        | ok text => rw [ha] at hf; cases hf
        | error g =>
          rw [ha] at hf
          cases hf
          simp only [wrapOptionAccessChainAsStr, ho, ok_bind, he, stringyCollapsed_some hh, ha, error_bind]
  · rw [Series.ofCells_cells, hs]
    exact List.map_congr_left fun x _ => (castCell_of_ne (d := .string) (by simp) _).symm

theorem wrapOptionAccessChainPrimitive_runs {P : Value → Prop} {ctx : LeafCtx} {chain : AccessChain}
    {read : Operand → Value} (leaf : PrimitiveLeaf) (hctx : ctx.traits = tr) (hpos : 0 < chain.optionLayers)
    (hmany : chain.isSinglePlainOption = false) (h : ChainAccess P ctx.access chain read items) :
    ArmRuns tr leaf (wrapOptionAccessChainPrimitive ctx leaf chain) ctx.name
      (fun it => chainFold chain.steps (read it)) items := by
  have hopt := buildLeaf_option { ctx with access := multiOptionLocal ctx leaf chain } leaf hctx .refRef
    (by simp) (multiOptionLocal_access leaf hpos h)
  cases leaf with
  | asStr base => exact wrapOptionAccessChainAsStr_runs hctx hpos hmany h
  | numeric kind => exact hopt
  | string => exact hopt
  | bool => exact hopt
  | binary => exact hopt
  | dateTime unit => exact hopt
  | naiveDateTime unit => exact hopt
  | naiveDate => exact hopt
  | naiveTime => exact hopt
  | duration unit source => exact hopt
  | decimal precision scale => exact hopt
  | asString => exact hopt

end

/-! ## Encoders of leaf shapes -/

/-- The cell of a leaf value in a row-wise column. -/
def scalarCell (tr : Traits) (leaf : PrimitiveLeaf) (v : Value) : Cell := Series.castCell leaf.dtype (leafCell tr leaf v)

section

variable {tr : Traits} {leaf : PrimitiveLeaf} {ctx : LeafCtx} {read : Operand → Value} {items : List Operand}

theorem singleOption_of_base {P : Value → Prop} {o : Operand} {v : Value} (hb : ChainBase [.option] (.ref o) v)
    (ht : HasWord P (AccessChain.word ⟨[.option]⟩) v) : o.OptionOf (chainFold [.option] v) := by
  generalize hr : Operand.ref o = r at hb
  cases hb with
  | ref =>
    cases hr
    rcases HasWord.chain [.option] ht with ⟨u, hu, -, -, -⟩ | ⟨hn, -, -, -⟩
    · rw [hu]
      cases v with
      | some x => cases hu; exact Or.inl rfl
      | none => cases hu
      | ptr _ => cases hu
      | scalar _ => cases hu
      | vec _ => cases hu
      | tuple _ => cases hu
      | struct _ => cases hu
    · rw [hn]
      cases v with
      | none => exact Or.inr rfl
      | some x => cases hn
      | ptr _ => exact ht.elim
      | scalar _ => exact ht.elim
      | vec _ => exact ht.elim
      | tuple _ => exact ht.elim
      | struct _ => exact ht.elim
  | absent h => subst hr; exact Or.inl h
  | present h hp => subst hr; exact Or.inr ⟨_, h, hp⟩

/-- The encoder of a column without `Vec` layers is an arm that stores the leaf at the end
    of the field's chain. -/
theorem buildEncoder_leaf (ctx : LeafCtx) {s : LeafShape} {receiver : Option PrimitiveExprReceiver} (leaf : PrimitiveLeaf)
    (hctx : ctx.traits = tr) (hs : s.Counted) (hr : receiver ≠ some .place)
    (ha : Accesses ctx.access read s.access.steps items) (ht : ∀ it ∈ items, HasWord (LeafTyped leaf) s.word (read it)) :
    ∃ arm, buildEncoderWithOptionReceiver ctx leaf (.leaf s) receiver = .leaf arm ∧
      ArmRuns tr leaf arm ctx.name (fun it => chainFold s.access.steps (read it)) items := by
  cases s with
  | bare =>
    refine ⟨_, rfl, buildLeaf_bare leaf hctx fun it hit => ?_⟩
    obtain ⟨o, ho, hb⟩ := ha it hit
    obtain rfl : o = .place (read it) := by simpa using chainBase_nil hb
    exact ⟨_, read it, ho, rfl, rfl⟩
  | optional n chain =>
    obtain ⟨hn, hpos⟩ := hs
    rw [hn] at hpos
    unfold buildEncoderWithOptionReceiver
    cases hone : chain.isSinglePlainOption with
    | true =>
      obtain ⟨steps⟩ := chain
      obtain rfl := singlePlainOption_steps hone
      have h1 : n = 1 := hn
      refine ⟨_, if_pos ⟨h1, hone⟩, buildLeaf_option _ leaf hctx _ ?_ fun it hit => ?_⟩
      · cases receiver with
        | none => simp
        | some r => simpa using hr
      · obtain ⟨o, ho, hb⟩ := ha it hit
        exact ⟨o, ho, singleOption_of_base hb (ht it hit)⟩
    | false =>
      refine ⟨_, if_neg (by simp [hone]), wrapOptionAccessChainPrimitive_runs (P := LeafTyped leaf) leaf hctx hpos hone fun it hit => ?_⟩
      obtain ⟨o, ho, hb⟩ := ha it hit
      exact ⟨o, ho, hb, ht it hit⟩

/-- The cell a row-wise column keeps for a row. -/
theorem scalar_cell {P : Value → Prop} {chain : AccessChain} {v : Value} (h : HasWord P chain.word v) :
    Series.castCell leaf.dtype (primCell (itemPrim tr leaf (chainFold chain.steps) v)) =
      cellOf (scalarCell tr leaf) chain.word v := by
  rcases HasWord.chain chain.steps h with ⟨x, hx, -, -, hcell⟩ | ⟨hx, -, -, hcell⟩
  · rw [itemPrim, hx, Option.bind_some, primCell_encode?]
    exact (hcell (scalarCell tr leaf)).symm
  · rw [itemPrim, hx, Option.bind_none]
    exact (hcell (scalarCell tr leaf)).symm

end

end DfDerive
