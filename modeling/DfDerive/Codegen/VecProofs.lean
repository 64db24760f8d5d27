/-
  DfDerive.Codegen.VecProofs — primitive leaf storage (see `DfDerive.Codegen.Vec`).

  `VecAbs` says what a leaf storage holds: the pushed leaves in order, null or encoded,
  and in a pre-filled bitmap the bits of the leaves still to come. Pushing a leaf appends
  it, with every bitmap write in range (`pieces_push`); once as many leaves are pushed as
  were counted, the leaf array is built without a panic and reads back as those leaves
  (`pieces_leafArr`). `pepEmit_runs` puts precount, scan and assembly together.
-/

import DfDerive.Codegen.Vec
import DfDerive.Codegen.ShapeWords

namespace DfDerive

open Lib

/-! ## Pre-filled bitmaps -/

/-- A bitmap of `total` bits, those of `xs` written and the rest still `d`. -/
def Prefilled {α : Type} (f : α → Bool) (d : Bool) (total : Nat) (bits : List Bool) (xs : List α) : Prop :=
  bits = xs.map f ++ List.replicate (total - xs.length) d

section

variable {α : Type} {f : α → Bool} {d : Bool} {total : Nat} {bits : List Bool} {xs : List α}

theorem Prefilled.nil : Prefilled f d total (mbDeclFilled total d) ([] : List α) := by
  simp [Prefilled, mbDeclFilled]

theorem replicate_pred {n : Nat} (h : 0 < n) : List.replicate n d = d :: List.replicate (n - 1) d := by
  obtain ⟨m, rfl⟩ := Nat.exists_eq_succ_of_ne_zero (Nat.pos_iff_ne_zero.mp h)
  rfl

/-- A leaf whose bit is the one pre-filled needs no write. -/
theorem Prefilled.skip (h : Prefilled f d total bits xs) (hlt : xs.length < total) {x : α} (hx : f x = d) :
    Prefilled f d total bits (xs ++ [x]) := by
  unfold Prefilled at h ⊢
  rw [h, replicate_pred (by omega : 0 < total - xs.length)]
  simp only [List.map_append, List.map_cons, List.map_nil, hx, List.length_append, List.length_cons, List.length_nil,
    List.append_assoc, List.singleton_append]
  rfl

/-- Writing the next bit is in range. -/
theorem Prefilled.set (h : Prefilled f d total bits xs) (hlt : xs.length < total) {x : α} {b : Bool} (hx : f x = b) :
    ∃ bits', bitmapSet bits xs.length b = .ok bits' ∧ Prefilled f d total bits' (xs ++ [x]) := by
  have hlen : xs.length < bits.length := by rw [h]; simp; omega
  refine ⟨bits.set xs.length b, by rw [bitmapSet, if_pos hlen], ?_⟩
  unfold Prefilled at h ⊢
  have hmap : xs.length = (xs.map f).length := by simp
  rw [h, replicate_pred (by omega : 0 < total - xs.length), hmap, List.set_append_right _ _ (Nat.le_refl _)]
  simp only [Nat.sub_self, List.set_cons_zero, List.map_append, List.map_cons, List.map_nil, hx, List.length_append,
    List.length_cons, List.length_nil, List.length_map, List.append_assoc, List.singleton_append]
  rfl

theorem Prefilled.full (h : Prefilled f d total bits xs) (hlen : xs.length = total) : bits = xs.map f := by
  unfold Prefilled at h
  rw [h, hlen]
  simp

end

/-! ## What a leaf stores -/

/-- The spec's value expression is the leaf's encoder. -/
def SpecReads (tr : Traits) (leaf : PrimitiveLeaf) : VecLeafSpec → Prop
  | .numeric native valueExpr => native = leaf.dtype.physicalArrow ∧ ∀ o u, o.RefTo u → valueExpr o = leaf.encode tr u
  | .stringLike valueExpr => leaf.dtype = .string ∧ ∀ o u scratch, o.RefTo u →
      (∀ p, leaf.encode tr u = .ok p → ∃ t s, p = .str t ∧ valueExpr scratch o = .ok (t, s)) ∧
      (∀ e, leaf.encode tr u = .error e → valueExpr scratch o = .error e)
  | .binaryLike valueExpr => leaf.dtype = .binary ∧ ∀ o u, o.RefTo u →
      (do Except.ok (Prim.bytes (← valueExpr o))) = leaf.encode tr u
  | .bool => leaf = .bool

theorem plainText_reads {read : Value → Run String} {o : Operand} {u : Value} (scratch : String) (h : o.RefTo u) :
    (∀ p, (do Except.ok (Prim.str (← read u))) = Except.ok p → ∃ t s, p = .str t ∧ plainText read scratch o = .ok (t, s)) ∧
      (∀ e : Fault, (do Except.ok (Prim.str (← read u))) = Except.error e → plainText read scratch o = .error e) := by
  simp only [plainText, h.value, ok_bind]
  cases read u with
  | error e => exact ⟨fun p hp => (by cases hp), fun e' he => (by cases he; rfl)⟩
  | ok t => exact ⟨fun p hp => (by cases hp; exact ⟨t, scratch, rfl, rfl⟩), fun e' he => (by cases he)⟩

theorem mapped_reads (tr : Traits) {leaf : PrimitiveLeaf} {t : ScalarTransform} (ht : leaf.transform = some t)
    {o : Operand} {u : Value} (h : o.RefTo u) : mapPrimitiveExpr tr o .ref t = leaf.encode tr u :=
  mapPrimitiveExpr_eq tr ht h.value rfl h.value

/-- Every leaf's plan reads what its encoder reads. -/
theorem vecLeafPlan_reads (tr : Traits) (leaf : PrimitiveLeaf) :
    SpecReads tr leaf (vecLeafPlan tr leaf).spec ∧ (vecLeafPlan tr leaf).leafDtype = leaf.dtype := by
  cases leaf with
  | numeric kind =>
    refine ⟨⟨numericInfoFor_native kind, fun o u h => ?_⟩, rfl⟩
    obtain ⟨p, rfl, hp⟩ := h
    show (do numericStoredValue kind (← p.value)) = _
    rw [Operand.value_of_strip hp, ok_bind]
    rfl
  | string => exact ⟨⟨rfl, fun o u scratch h => plainText_reads scratch h⟩, rfl⟩
  | bool => exact ⟨rfl, rfl⟩
  | binary =>
    refine ⟨⟨rfl, fun o u h => ?_⟩, rfl⟩
    simp only [h.value, ok_bind]
    rfl
  | dateTime unit => exact ⟨⟨rfl, fun o u h => mapped_reads tr rfl h⟩, rfl⟩
  | naiveDateTime unit => exact ⟨⟨rfl, fun o u h => mapped_reads tr rfl h⟩, rfl⟩
  | naiveDate => exact ⟨⟨rfl, fun o u h => mapped_reads tr rfl h⟩, rfl⟩
  | naiveTime => exact ⟨⟨rfl, fun o u h => mapped_reads tr rfl h⟩, rfl⟩
  | duration unit source => exact ⟨⟨rfl, fun o u h => mapped_reads tr rfl h⟩, rfl⟩
  | decimal precision scale => exact ⟨⟨rfl, fun o u h => mapped_reads tr rfl h⟩, rfl⟩
  | asString =>
    refine ⟨⟨rfl, fun o u scratch h => ?_⟩, rfl⟩
    simp only [h.value, ok_bind, PrimitiveLeaf.encode, displayInto, scratchClear]
    cases scratchWrite tr "" u with
    | error e => exact ⟨fun p hp => (by cases hp), fun e' he => (by cases he; rfl)⟩
    | ok t => exact ⟨fun p hp => (by cases hp; exact ⟨t, t, rfl, rfl⟩), fun e' he => (by cases he)⟩
  | asStr base => exact ⟨⟨rfl, fun o u scratch h => plainText_reads scratch h⟩, rfl⟩

/-! ## Pushing a leaf -/

def boolBit : Option Prim → Bool
  | some (.bool b) => b
  | _ => false

/-- The bits a leaf validity holds, when one is declared. -/
def ValidityAbs (hasInnerOption : Bool) (total : Nat) (bits : List Bool) (xs : List (Option Prim)) : Prop :=
  if hasInnerOption then Prefilled Option.isSome true total bits xs else ∀ x ∈ xs, x.isSome = true

/-- What a leaf storage holds: the leaves `xs`, null or encoded. -/
def VecAbs (spec : VecLeafSpec) (hasInnerOption : Bool) (total : Nat) (s : VecLeafBufs) (xs : List (Option Prim)) : Prop :=
  ValidityAbs hasInnerOption total s.validity xs ∧
  match spec with
  | .numeric native _ => s.flat = xs.map (·.getD (nativeDefault native))
  | .stringLike _ => s.viewBuf = xs.map (·.getD (.str "")) ∧ (hasInnerOption = true → s.leafIdx = xs.length)
  | .binaryLike _ => s.viewBuf = xs.map (·.getD (.bytes [])) ∧ (hasInnerOption = true → s.leafIdx = xs.length)
  | .bool => Prefilled boolBit false total s.values xs ∧ s.leafIdx = xs.length ∧ ∀ p, some p ∈ xs → ∃ b, p = .bool b

section

variable {tr : Traits} {leaf : PrimitiveLeaf} {total : Nat} {s : VecLeafBufs} {xs : List (Option Prim)} {o : Operand}
  {x : Option Value}

/-- The validity after a leaf that is present. -/
theorem ValidityAbs.present {bits : List Bool} (h : ValidityAbs true total bits xs) (hlt : xs.length < total) (p : Prim) :
    ValidityAbs true total bits (xs ++ [some p]) := by
  simp only [ValidityAbs, ite_true] at h ⊢
  exact h.skip hlt rfl

theorem ValidityAbs.absent {bits : List Bool} (h : ValidityAbs true total bits xs) (hlt : xs.length < total) :
    ∃ bits', bitmapSet bits xs.length false = .ok bits' ∧ ValidityAbs true total bits' (xs ++ [none]) := by
  simp only [ValidityAbs, ite_true] at h ⊢
  exact h.set hlt rfl

theorem ValidityAbs.bare {bits bits' : List Bool} (h : ValidityAbs false total bits xs) (p : Prim) :
    ValidityAbs false total bits' (xs ++ [some p]) := by
  simp only [ValidityAbs, Bool.false_eq_true, ite_false] at h ⊢
  intro y hy
  rcases List.mem_append.mp hy with hy | hy
  · exact h y hy
  · simp at hy; rw [hy]; rfl

theorem numeric_push {native : ArrowDataType} {valueExpr : Operand → Run Prim} (hasInnerOption : Bool)
    (hv : ∀ o u, o.RefTo u → valueExpr o = leaf.encode tr u) (ho : LeafReads hasInnerOption o x) (hlt : xs.length < total)
    (h : VecAbs (.numeric native valueExpr) hasInnerOption total s xs) :
    Pushes tr leaf ((numericLeafPieces native valueExpr hasInnerOption).push s o) x
      (fun s y => VecAbs (.numeric native valueExpr) hasInnerOption total s (xs ++ [y])) := by
  obtain ⟨hvalid, hflat⟩ := h
  cases hasInnerOption with
  | true =>
    have hm := ho.optional
    cases x with
    | none =>
      have hm : o.matchOption = .ok none := hm
      obtain ⟨bits, hset, hbits⟩ := hvalid.absent hlt
      have hidx : (s.flat ++ [nativeDefault native]).length - 1 = xs.length := by simp [hflat]
      refine ⟨by simp, fun y _ hy => ?_⟩
      rw [hy rfl]
      refine ⟨{ s with flat := s.flat ++ [nativeDefault native], validity := bits }, ?_, hbits, ?_⟩
      · simp only [numericLeafPieces, ite_true, hm, ok_bind, hidx, hset]
      · simp [hflat]
    | some u =>
      obtain ⟨p, hp, href⟩ := hm
      refine ⟨fun v e hv' he => ?_, fun y hy _ => ?_⟩
      · cases hv'
        simp only [numericLeafPieces, ite_true, hp, ok_bind, hv p u href, he, error_bind]
      · obtain ⟨henc, hsome⟩ := hy u rfl
        obtain ⟨q, rfl⟩ := Option.isSome_iff_exists.mp hsome
        refine ⟨{ s with flat := s.flat ++ [q] }, ?_, hvalid.present hlt q, by simp [hflat]⟩
        simp only [numericLeafPieces, ite_true, hp, ok_bind, hv p u href, henc, Option.getD_some]
  | false =>
    obtain ⟨u, rfl, href⟩ := ho.bare
    refine ⟨fun v e hv' he => ?_, fun y hy _ => ?_⟩
    · cases hv'
      simp only [numericLeafPieces, Bool.false_eq_true, ite_false, hv o u href, he, error_bind]
    · obtain ⟨henc, hsome⟩ := hy u rfl
      obtain ⟨q, rfl⟩ := Option.isSome_iff_exists.mp hsome
      refine ⟨{ s with flat := s.flat ++ [q] }, ?_, hvalid.bare q, by simp [hflat]⟩
      simp only [numericLeafPieces, Bool.false_eq_true, ite_false, hv o u href, henc, Option.getD_some, ok_bind]


/-- A view storage holds the leaves `xs`, `empty` standing for the absent ones. -/
def ViewAbs (empty : Prim) (hasInnerOption : Bool) (total : Nat) (s : VecLeafBufs) (xs : List (Option Prim)) : Prop :=
  ValidityAbs hasInnerOption total s.validity xs ∧ s.viewBuf = xs.map (·.getD empty) ∧
    (hasInnerOption = true → s.leafIdx = xs.length)

theorem view_push {dtype : ArrowDataType} {empty : Prim} {pushValue : VecLeafBufs → Operand → Run (Prim × String)}
    (hasInnerOption : Bool)
    (hv : ∀ s o u, o.RefTo u → (∀ p, leaf.encode tr u = .ok p → ∃ scratch, pushValue s o = .ok (p, scratch)) ∧
      (∀ e, leaf.encode tr u = .error e → pushValue s o = .error e))
    (ho : LeafReads hasInnerOption o x) (hlt : xs.length < total) (h : ViewAbs empty hasInnerOption total s xs) :
    Pushes tr leaf ((viewLeafPieces dtype empty pushValue hasInnerOption).push s o) x
      (fun s y => ViewAbs empty hasInnerOption total s (xs ++ [y])) := by
  obtain ⟨hvalid, hbuf, hidx⟩ := h
  cases hasInnerOption with
  | true =>
    have hm := ho.optional
    have hidx := hidx rfl
    cases x with
    | none =>
      have hm : o.matchOption = .ok none := hm
      obtain ⟨bits, hset, hbits⟩ := hvalid.absent hlt
      rw [← hidx] at hset
      refine ⟨by simp, fun y _ hy => ?_⟩
      rw [hy rfl]
      refine ⟨{ s with viewBuf := s.viewBuf ++ [empty], validity := bits, leafIdx := s.leafIdx + 1 }, ?_, hbits, ?_, ?_⟩
      · simp only [viewLeafPieces, ite_true, hm, ok_bind, hset]
      · simp [hbuf]
      · simp [hidx]
    | some u =>
      obtain ⟨p, hp, href⟩ := hm
      refine ⟨fun v e hv' he => ?_, fun y hy _ => ?_⟩
      · cases hv'
        simp only [viewLeafPieces, ite_true, hp, ok_bind, (hv s p u href).2 e he, error_bind]
      · obtain ⟨henc, hsome⟩ := hy u rfl
        obtain ⟨q, rfl⟩ := Option.isSome_iff_exists.mp hsome
        obtain ⟨scratch, hpush⟩ := (hv s p u href).1 q henc
        refine ⟨{ s with viewBuf := s.viewBuf ++ [q], scratch, leafIdx := s.leafIdx + 1 }, ?_, hvalid.present hlt q, ?_, ?_⟩
        · simp only [viewLeafPieces, ite_true, hp, ok_bind, hpush]
        · simp [hbuf]
        · simp [hidx]
  | false =>
    obtain ⟨u, rfl, href⟩ := ho.bare
    refine ⟨fun v e hv' he => ?_, fun y hy _ => ?_⟩
    · cases hv'
      simp only [viewLeafPieces, Bool.false_eq_true, ite_false, (hv s o u href).2 e he, error_bind]
    · obtain ⟨henc, hsome⟩ := hy u rfl
      obtain ⟨q, rfl⟩ := Option.isSome_iff_exists.mp hsome
      obtain ⟨scratch, hpush⟩ := (hv s o u href).1 q henc
      refine ⟨{ s with viewBuf := s.viewBuf ++ [q], scratch }, ?_, hvalid.bare q, by simp [hbuf], by simp⟩
      simp only [viewLeafPieces, Bool.false_eq_true, ite_false, hpush, ok_bind]

theorem stringLike_pushValue {valueExpr : String → Operand → Run (String × String)}
    (hv : SpecReads tr leaf (.stringLike valueExpr)) (s : VecLeafBufs) (o : Operand) (u : Value) (ho : o.RefTo u) :
    (∀ p, leaf.encode tr u = .ok p → ∃ scratch, (do
        let (text, scratch) ← valueExpr s.scratch o
        Except.ok (Prim.str text, scratch)) = .ok (p, scratch)) ∧
      (∀ e, leaf.encode tr u = .error e → (do
        let (text, scratch) ← valueExpr s.scratch o
        Except.ok (Prim.str text, scratch)) = .error e) := by
  obtain ⟨h1, h2⟩ := hv.2 o u s.scratch ho
  refine ⟨fun p hp => ?_, fun e he => ?_⟩
  · obtain ⟨t, scratch, rfl, hval⟩ := h1 p hp
    exact ⟨scratch, by simp only [hval, ok_bind]⟩
  · simp only [h2 e he, error_bind]

theorem binaryLike_pushValue {valueExpr : Operand → Run (List UInt8)} (hv : SpecReads tr leaf (.binaryLike valueExpr))
    (s : VecLeafBufs) (o : Operand) (u : Value) (ho : o.RefTo u) :
    (∀ p, leaf.encode tr u = .ok p → ∃ scratch,
        (do Except.ok (Prim.bytes (← valueExpr o), s.scratch)) = Except.ok (p, scratch)) ∧
      (∀ e, leaf.encode tr u = .error e → (do Except.ok (Prim.bytes (← valueExpr o), s.scratch)) = .error e) := by
  have hval := hv.2 o u ho
  cases hb : valueExpr o with
  | error f =>
    rw [hb] at hval
    refine ⟨fun p hp => ?_, fun e he => ?_⟩
    · rw [← hval] at hp; cases hp
    · rw [← hval] at he; cases he; rfl
  | ok b =>
    rw [hb] at hval
    refine ⟨fun p hp => ?_, fun e he => ?_⟩
    · rw [← hval] at hp; cases hp; exact ⟨_, rfl⟩
    · rw [← hval] at he; cases he

/-- Every `bool` leaf encodes to its bit. -/
theorem bool_encode {u : Value} {p : Prim} (h : PrimitiveLeaf.bool.encode tr u = .ok p) :
    ∃ b, u = .scalar (.bool b) ∧ p = .bool b := by
  simp only [PrimitiveLeaf.encode] at h
  split at h
  · cases h; exact ⟨_, rfl, rfl⟩
  · cases h

theorem boolOf_eq (tr : Traits) {o : Operand} {u : Value} (ho : o.value = .ok u) :
    (∀ b, u = .scalar (.bool b) → boolOf o = .ok b) ∧
    (∀ e, PrimitiveLeaf.bool.encode tr u = .error e → boolOf o = .error e) := by
  refine ⟨fun b hb => ?_, fun e he => ?_⟩
  · simp only [boolOf, ho, ok_bind, hb]
  · simp only [PrimitiveLeaf.encode] at he
    split at he
    · cases he
    · rename_i hne
      cases he
      simp only [boolOf, ho, ok_bind]

/-- Writing a bit of a pre-filled value bitmap: only set bits are written. -/
theorem Prefilled.bit {bits : List Bool} (h : Prefilled boolBit false total bits xs) (hlt : xs.length < total) (b : Bool) :
    ∃ bits', (b = true → bitmapSet bits xs.length true = .ok bits') ∧ (b = false → bits = bits') ∧
      Prefilled boolBit false total bits' (xs ++ [some (.bool b)]) := by
  cases b with
  | true =>
    obtain ⟨bits', hset, hbits⟩ := h.set hlt (x := some (.bool true)) rfl
    exact ⟨bits', fun _ => hset, fun hb => (by cases hb), hbits⟩
  | false => exact ⟨bits, fun hb => (by cases hb), fun _ => rfl, h.skip hlt rfl⟩

theorem bools_append {xs : List (Option Prim)} (h : ∀ p, some p ∈ xs → ∃ b, p = .bool b) {y : Option Prim}
    (hy : ∀ p, y = some p → ∃ b, p = .bool b) : ∀ p, some p ∈ xs ++ [y] → ∃ b, p = .bool b := by
  intro p hp
  rcases List.mem_append.mp hp with hp | hp
  · exact h p hp
  · exact hy p (by simpa using (List.mem_singleton.mp hp).symm)

theorem boolInner_push (ho : LeafReads true o x) (hlt : xs.length < total) (h : VecAbs .bool true total s xs) :
    Pushes tr .bool (boolInnerOptionLeafPieces.push s o) x (fun s y => VecAbs .bool true total s (xs ++ [y])) := by
  obtain ⟨hvalid, hvalues, hidx, hbools⟩ := h
  have hm := ho.optional
  cases x with
  | none =>
    have hm : o.matchOption = .ok none := hm
    obtain ⟨bits, hset, hbits⟩ := hvalid.absent hlt
    rw [← hidx] at hset
    refine ⟨by simp, fun y _ hy => ?_⟩
    rw [hy rfl]
    refine ⟨{ s with validity := bits, leafIdx := s.leafIdx + 1 }, ?_, hbits, hvalues.skip hlt rfl, by simp [hidx], ?_⟩
    · simp only [boolInnerOptionLeafPieces, hm, ok_bind, hset]
    · exact bools_append hbools (by simp)
  | some u =>
    obtain ⟨p, hp, href⟩ := hm
    obtain ⟨hok, herr⟩ := boolOf_eq tr href.value
    refine ⟨fun v e hv' he => ?_, fun y hy _ => ?_⟩
    · cases hv'
      simp only [boolInnerOptionLeafPieces, hp, ok_bind, herr e he, error_bind]
    · obtain ⟨henc, hsome⟩ := hy u rfl
      obtain ⟨q, rfl⟩ := Option.isSome_iff_exists.mp hsome
      obtain ⟨b, hb, hq⟩ := bool_encode henc
      simp only [Option.getD_some] at hq
      subst hq
      obtain ⟨bits, hset, hskip, hbits⟩ := hvalues.bit hlt b
      rw [← hidx] at hset
      refine ⟨{ s with values := bits, leafIdx := s.leafIdx + 1 }, ?_, hvalid.present hlt _, hbits, by simp [hidx], ?_⟩
      · simp only [boolInnerOptionLeafPieces, hp, ok_bind, hok b hb]
        cases b with
        | true => simp only [ite_true, hset rfl, ok_bind]
        | false => simp only [Bool.false_eq_true, ite_false, hskip rfl]
      · exact bools_append hbools (by simp)

theorem boolBare_push (tr : Traits) (ho : LeafReads false o x) (hlt : xs.length < total)
    (h : VecAbs .bool false total s xs) :
    Pushes tr .bool (boolBareLeafPieces.push s o) x (fun s y => VecAbs .bool false total s (xs ++ [y])) := by
  obtain ⟨hvalid, hvalues, hidx, hbools⟩ := h
  obtain ⟨u, rfl, p, rfl, hp⟩ := ho.bare
  obtain ⟨hok, herr⟩ := boolOf_eq tr (Operand.value_of_strip hp)
  refine ⟨fun v e hv' he => ?_, fun y hy _ => ?_⟩
  · cases hv'
    simp only [boolBareLeafPieces, Operand.deref, ok_bind, herr e he, error_bind]
  · obtain ⟨henc, hsome⟩ := hy u rfl
    obtain ⟨q, rfl⟩ := Option.isSome_iff_exists.mp hsome
    obtain ⟨b, hb, hq⟩ := bool_encode henc
    simp only [Option.getD_some] at hq
    subst hq
    obtain ⟨bits, hset, hskip, hbits⟩ := hvalues.bit hlt b
    rw [← hidx] at hset
    refine ⟨{ s with values := bits, leafIdx := s.leafIdx + 1 }, ?_, hvalid.bare _, hbits, by simp [hidx], ?_⟩
    · simp only [boolBareLeafPieces, Operand.deref, ok_bind, hok b hb]
      cases b with
      | true => simp only [ite_true, hset rfl, ok_bind]
      | false => simp only [Bool.false_eq_true, ite_false, hskip rfl]
    · exact bools_append hbools (by simp)

/-- Pushing a leaf into its storage: it is appended, every bitmap write in range. -/
theorem pieces_push {spec : VecLeafSpec} (hs : SpecReads tr leaf spec) {hasInnerOption : Bool}
    (ho : LeafReads hasInnerOption o x) (hlt : xs.length < total) (h : VecAbs spec hasInnerOption total s xs) :
    Pushes tr leaf ((buildVecLeafPieces spec hasInnerOption).push s o) x
      (fun s y => VecAbs spec hasInnerOption total s (xs ++ [y])) := by
  cases spec with
  | numeric native valueExpr => exact numeric_push hasInnerOption hs.2 ho hlt h
  | stringLike valueExpr => exact view_push hasInnerOption (stringLike_pushValue hs) ho hlt h
  | binaryLike valueExpr => exact view_push hasInnerOption (binaryLike_pushValue hs) ho hlt h
  | bool =>
    have hleaf : leaf = .bool := hs
    subst hleaf
    cases hasInnerOption with
    | true => exact boolInner_push ho hlt h
    | false => exact boolBare_push tr ho hlt h

/-- The declared storage holds no leaf. -/
theorem pieces_storage (spec : VecLeafSpec) (hasInnerOption : Bool) (total : Nat) :
    VecAbs spec hasInnerOption total ((buildVecLeafPieces spec hasInnerOption).storage total) [] := by
  cases spec <;> cases hasInnerOption
  case bool.false => exact ⟨by simp [ValidityAbs], Prefilled.nil, rfl, by simp⟩
  case bool.true => exact ⟨Prefilled.nil, Prefilled.nil, rfl, by simp⟩
  case numeric.false => exact ⟨by simp [ValidityAbs], rfl⟩
  case numeric.true => exact ⟨Prefilled.nil, rfl⟩
  case stringLike.false => exact ⟨by simp [ValidityAbs], rfl, by simp⟩
  case stringLike.true => exact ⟨Prefilled.nil, rfl, fun _ => rfl⟩
  case binaryLike.false => exact ⟨by simp [ValidityAbs], rfl, by simp⟩
  case binaryLike.true => exact ⟨Prefilled.nil, rfl, fun _ => rfl⟩

theorem VecAbs.length {spec : VecLeafSpec} {hasInnerOption : Bool} (h : VecAbs spec hasInnerOption total s xs) :
    leafOffsetsPostPush spec s = xs.length := by
  cases spec with
  | numeric native valueExpr => show s.flat.length = _; rw [h.2, List.length_map]
  | stringLike valueExpr => show s.viewBuf.length = _; rw [h.2.1, List.length_map]
  | binaryLike valueExpr => show s.viewBuf.length = _; rw [h.2.1, List.length_map]
  | bool => exact h.2.2.1


/-! ## The leaf array -/

/-- An array of present values, and of what stands for the absent ones. -/
theorem bareArray {g : Option Prim → Prim} (hg : ∀ p, some p ∈ xs → g (some p) = p) (hsome : ∀ x ∈ xs, x.isSome = true)
    (dtype : ArrowDataType) : (ArrowArray.flat dtype (xs.map g) none).cells = xs.map primCell := by
  simp only [ArrowArray.cells, List.map_map]
  refine List.map_congr_left fun x hx => ?_
  obtain ⟨p, rfl⟩ := Option.isSome_iff_exists.mp (hsome x hx)
  exact congrArg Nested.val (hg p hx)

theorem maskedCells {g : Option Prim → Prim} : ∀ {xs : List (Option Prim)}, (∀ p, some p ∈ xs → g (some p) = p) →
    List.zipWith (fun v b => if b = true then Nested.val v else Nested.null) (xs.map g) (xs.map Option.isSome) =
      xs.map primCell
  | [], _ => rfl
  | none :: xs, hg => by
    have ih := maskedCells fun p hp => hg p (List.mem_cons_of_mem _ hp)
    simp only [List.map_cons, List.zipWith_cons_cons, ih]
    rfl
  | some p :: xs, hg => by
    have ih := maskedCells fun p hp => hg p (List.mem_cons_of_mem _ hp)
    simp only [List.map_cons, List.zipWith_cons_cons, ih, Option.isSome_some, ite_true, hg p List.mem_cons_self]
    rfl

/-- The array of an optional leaf: its bitmap has one bit a value, or is left out when
    every leaf is present. -/
theorem maskedArray {x : List (Option Prim)} {g : Option Prim → Prim} (hg : ∀ p, some p ∈ x → g (some p) = p)
    (dtype : ArrowDataType) :
    ∃ a, flatArrayNew dtype (x.map g) (bitmapIntoOption (x.map Option.isSome)) = .ok a ∧ a.dtype = dtype ∧
      a.cells = x.map primCell := by
  unfold bitmapIntoOption
  split
  · rename_i hall
    refine ⟨.flat dtype (x.map g) none, ?_, rfl, bareArray hg (fun y hy => ?_) dtype⟩
    · simp only [flatArrayNew, reduceCtorEq, false_implies, implies_true, ite_true]
    · simp only [List.all_map, List.all_eq_true, Function.comp_apply, id_eq] at hall
      exact hall y hy
  · refine ⟨.flat dtype (x.map g) (some (x.map Option.isSome)), ?_, rfl, maskedCells hg⟩
    rw [flatArrayNew, if_pos]
    intro bits hb
    cases hb
    simp

theorem ValidityAbs.full {bits : List Bool} (h : ValidityAbs true total bits xs) (hlen : xs.length = total) :
    bits = xs.map Option.isSome := by
  simp only [ValidityAbs, ite_true] at h
  exact h.full hlen

theorem ValidityAbs.allSome {bits : List Bool} (h : ValidityAbs false total bits xs) : ∀ x ∈ xs, x.isSome = true := by
  simpa [ValidityAbs] using h

/-- Once every counted leaf is pushed, the leaf array is built and reads back as them. -/
theorem pieces_leafArr {spec : VecLeafSpec} (hs : SpecReads tr leaf spec) {hasInnerOption : Bool}
    (hlen : xs.length = total) (h : VecAbs spec hasInnerOption total s xs) :
    ∃ a, (buildVecLeafPieces spec hasInnerOption).leafArr s = .ok a ∧ a.dtype = leaf.dtype.physicalArrow ∧
      a.cells = xs.map primCell := by
  cases spec with
  | numeric native valueExpr =>
    obtain ⟨hvalid, hflat⟩ := h
    rw [← hs.1]
    cases hasInnerOption with
    | true =>
      show ∃ a, flatArrayNew native s.flat (bitmapIntoOption s.validity) = .ok a ∧ _
      rw [hflat, hvalid.full hlen]
      exact maskedArray (by simp) native
    | false =>
      refine ⟨.flat native s.flat none, rfl, rfl, ?_⟩
      rw [hflat]
      exact bareArray (by simp) hvalid.allSome native
  | stringLike valueExpr =>
    obtain ⟨hvalid, hbuf, -⟩ := h
    rw [hs.1]
    cases hasInnerOption with
    | true =>
      show ∃ a, flatArrayNew .utf8View s.viewBuf (bitmapIntoOption s.validity) = .ok a ∧ _
      rw [hbuf, hvalid.full hlen]
      exact maskedArray (by simp) .utf8View
    | false =>
      refine ⟨.flat .utf8View s.viewBuf none, rfl, rfl, ?_⟩
      rw [hbuf]
      exact bareArray (by simp) hvalid.allSome .utf8View
  | binaryLike valueExpr =>
    obtain ⟨hvalid, hbuf, -⟩ := h
    rw [hs.1]
    cases hasInnerOption with
    | true =>
      show ∃ a, flatArrayNew .binaryView s.viewBuf (bitmapIntoOption s.validity) = .ok a ∧ _
      rw [hbuf, hvalid.full hlen]
      exact maskedArray (by simp) .binaryView
    | false =>
      refine ⟨.flat .binaryView s.viewBuf none, rfl, rfl, ?_⟩
      rw [hbuf]
      exact bareArray (by simp) hvalid.allSome .binaryView
  | bool =>
    obtain ⟨hvalid, hvalues, -, hbools⟩ := h
    have hleaf : leaf = .bool := hs
    subst hleaf
    have hg : ∀ p, some p ∈ xs → Prim.bool (boolBit (some p)) = p := by
      intro p hp
      obtain ⟨b, rfl⟩ := hbools p hp
      rfl
    cases hasInnerOption with
    | true =>
      show ∃ a, flatArrayNew .boolean (s.values.map .bool) (bitmapIntoOption s.validity) = .ok a ∧ _
      rw [hvalues.full hlen, hvalid.full hlen, List.map_map]
      exact maskedArray (g := fun x => Prim.bool (boolBit x)) hg .boolean
    | false =>
      refine ⟨.flat .boolean (s.values.map .bool) none, ?_, rfl, ?_⟩
      · show flatArrayNew .boolean (s.values.map .bool) none = _
        simp only [flatArrayNew, reduceCtorEq, false_implies, implies_true, ite_true]
      · rw [hvalues.full hlen, List.map_map]
        exact bareArray (g := fun x => Prim.bool (boolBit x)) hg hvalid.allSome .boolean

end

/-! ## Precount, scan and assembly -/

section

variable (tr : Traits) (leaf : PrimitiveLeaf) (spec : VecLeafSpec) (hasInnerOption : Bool) (expr : Operand → Run Operand)
  (item : Value → Option Value)

/-- The expression bound for a raw item reads the leaf `item` finds below it. -/
def ReadsItem (v : Value) : Prop :=
  ∃ o, expr (.ref (.place v)) = .ok o ∧ LeafReads hasInnerOption o (item v) ∧ ∀ u, item v = some u → LeafTyped leaf u

/-- Every leaf below the raw items has an encoding. -/
def ItemsEncode (vs : List Value) : Prop := ∀ v ∈ vs, ∀ u, item v = some u → Encodes tr leaf u

/-- The stored leaf of a raw item. -/
def itemPrim (v : Value) : Option Prim := (item v).bind (encode? tr leaf)

variable {tr leaf spec hasInnerOption expr item}

theorem leafPush (hs : SpecReads tr leaf spec) (total : Nat) :
    LeafPush Fault.FromData
      (fun s v => do (buildVecLeafPieces spec hasInnerOption).push s (← expr (.ref (.place v))))
      (leafOffsetsPostPush spec) (fun s vs => VecAbs spec hasInnerOption total s (vs.map (itemPrim tr leaf item)))
      (fun vs => vs.length ≤ total) (ItemsEncode tr leaf item) (ReadsItem leaf hasInnerOption expr item) where
  step s vs v hv hr hf habs := by
    obtain ⟨o, ho, hreads, htyped⟩ := hv
    have hlt : (vs.map (itemPrim tr leaf item)).length < total := by simpa [Nat.succ_le_iff] using hr
    simp only [ho, ok_bind, List.map_append, List.map_cons, List.map_nil]
    refine Runs.congr (Pushes.runs (pieces_push hs hreads hlt habs) htyped) ?_
    constructor
    · intro h w hw
      rcases List.mem_append.mp hw with hw | hw
      · exact hf w hw
      · exact List.mem_singleton.mp hw ▸ h
    · exact fun h => h v (by simp)
  len_eq s vs h := by rw [h.length, List.length_map]
  fits_prefix _ _ h v hv := h v (List.mem_append_left _ hv)
  room_prefix _ _ h := by simp only [List.length_append] at h; omega

/-- The emission for a primitive leaf: it succeeds exactly when the rows fit and every leaf
    has an encoding, with a list series of the declared dtype that reads back as the rows. -/
theorem pepEmit_runs (hs : SpecReads tr leaf spec) {projection : Option LayerProjection} {shape : VecLayers}
    (hn : shape.Nullable) {access : Operand → Run Operand} {read : Operand → Value} {items : List Operand}
    (hw : Walks (ReadsItem leaf shape.hasInnerOption expr item) projection shape access read items) :
    Run.Spec
      (pepEmit (lowerToPep spec shape leaf.dtype)
        (leafLoop expr (buildVecLeafPieces spec shape.hasInnerOption).push) projection shape access items)
      (Fits i64Max (ItemsEncode tr leaf item) shape.layers.toList (rowsOf projection shape read items))
      (fun s => s.dtype = wrapListLayers leaf.dtype shape.depth ∧
        s.cells = (rowsOf projection shape read items).map (Nested.bind fun v => primCell (itemPrim tr leaf item v))) := by
  have htotal : Counts.total shape.layers.toList (levels shape.layers.toList (rowsOf projection shape read items)) =
      (leaves shape.layers.toList (rowsOf projection shape read items)).length :=
    total_levels shape.layers.rest shape.layers.first _ (hw.shaped hn)
  simp only [pepEmit, precount_eq hw, ok_bind]
  generalize Counts.total shape.layers.toList
    (levels shape.layers.toList (rowsOf projection shape read items)) = total at htotal
  have hscan := build_runs (s := ⟨leafLoop expr (buildVecLeafPieces spec shape.hasInnerOption).push,
      leafOffsetsPostPush spec, projection⟩) rfl (leafPush hs total) hn hw
    (pieces_storage spec shape.hasInnerOption total)
    (by intro v hv; cases hv) (Nat.le_of_eq htotal.symm)
  refine Runs.congr (Runs.bind hscan (H := True) fun _ st hst => ?_) (and_iff_left trivial)
  obtain ⟨a, ha, hdtype, hcells⟩ := pieces_leafArr hs (by rw [List.length_map]; exact htotal.symm) hst.abs
  have hlen : a.len = (leaves shape.layers.toList (rowsOf projection shape read items)).length := by
    rw [ArrowArray.len, hcells, List.length_map, List.length_map]
  obtain ⟨s, hseries, hsdtype, -, hscells⟩ := shapeAssembleListStack_runs freezes_move hdtype hst hlen
  have hmat : pepMaterialize (lowerToPep spec shape leaf.dtype) shape st = .ok s := by
    simp only [pepMaterialize, lowerToPep]
    rw [ha, ok_bind]
    exact hseries
  rw [hmat]
  refine Runs.pure trivial ⟨?_, ?_⟩
  · rw [hsdtype, VecLayers.depth, ← NonEmpty.length_toList]
    rfl
  · rw [hscells]
    refine Holds.read _ hst ?_
    rw [hcells, List.map_map]
    rfl

end

/-! ## The leaf operand of a field -/

/-- Every leaf value has an encoding. -/
def AllEncode (tr : Traits) (leaf : PrimitiveLeaf) (us : List Value) : Prop := ∀ u ∈ us, Encodes tr leaf u

section

variable {tr : Traits} {leaf : PrimitiveLeaf} {access : Operand → Run Operand} {read : Operand → Value}
  {items : List Operand}

theorem innerOption_iff {shape : VecLayers} (hn : shape.Nullable) :
    shape.hasInnerOption = true ↔ .option ∈ shape.innerAccess.steps := by
  rw [VecLayers.hasInnerOption, decide_eq_true_iff, hn.inner, optionLayers_pos]

theorem singlePlainOption_steps {c : AccessChain} (h : c.isSinglePlainOption = true) : c.steps = [.option] := by
  simpa [AccessChain.isSinglePlainOption] using h

/-- The operand bound by the leaf loop reads the leaf at the end of the inner chain. -/
theorem pepLeafExpr_reads {P : Value → Prop} {shape : VecLayers} (hn : shape.Nullable) {v : Value}
    (h : HasWord P shape.innerAccess.word v) :
    ∃ o, pepLeafExpr shape (.ref (.place v)) = .ok o ∧
      LeafReads shape.hasInnerOption o (chainFold shape.innerAccess.steps v) := by
  obtain ⟨-, e, he, hval⟩ := accessChainToRef_spec (ChainBase.ref _ v) h
  have hchain := hval.leafReads (innerOption_iff hn)
  unfold pepLeafExpr
  split
  · rename_i hdirect
    refine ⟨_, rfl, ?_⟩
    rcases Bool.or_eq_true_iff.mp hdirect with hemp | hone
    · have hst : shape.innerAccess.steps = [] := by simpa [AccessChain.isEmpty] using hemp
      have hno : shape.hasInnerOption = false := by
        rw [Bool.eq_false_iff, Ne, innerOption_iff hn, hst]
        simp
      rw [hno, hst]
      exact ⟨v, rfl, Operand.refTo_place v⟩
    · have hst := singlePlainOption_steps hone
      have hopt : shape.hasInnerOption = true := by rw [innerOption_iff hn, hst]; simp
      rw [hopt, hst]
      simp only [AccessChain.word, hst, List.map_cons, List.map_nil, AccessStep.word] at h
      exact matchesTo_ref_place h
  · exact ⟨e, he, hchain⟩

end

end DfDerive
