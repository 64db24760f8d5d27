/-
  DfDerive.Codegen.WrapperAccess — access chains as expressions (`encoder/wrapper_access.rs`).

  A generated expression is modelled by what it evaluates to. The loop of
  `access_chain_to_ref` carries the expression built so far, whether it already is an
  `Option`, and the smart pointers not yet dereferenced. On a base the callers pass
  (`ChainBase`) the finished expression holds the value at the end of the chain, or no
  value when an `Option` on the way is absent (`accessChainToRef_spec`).
-/

import DfDerive.Spec.Cells
import Mathlib.Logic.Function.Iterate

namespace DfDerive

open Lib

/-- `IdxSize::MAX`; Polars indexes rows with `u32`. -/
def idxSizeMax : Nat := 2 ^ 32 - 1

def i64Max : Nat := 2 ^ 63 - 1

/-- `idx_size_len_expr` -/
def idxSizeLenExpr (len : Nat) : Run Nat := if len ≤ idxSizeMax then .ok len else Run.derive (.idxSize len)

/-- `list_offset_i64_expr` -/
def listOffsetI64Expr (offset : Nat) : Run Nat := if offset ≤ i64Max then .ok offset else Run.derive (.listOffset offset)

theorem idxSizeLenExpr_runs (n : Nat) : Run.Spec (idxSizeLenExpr n) (n ≤ idxSizeMax)
    (· = n) := Runs.check (fun _ => rfl) trivial

theorem listOffsetI64Expr_runs (n : Nat) : Run.Spec (listOffsetI64Expr n) (n ≤ i64Max) (· = n) :=
  Runs.check (fun _ => rfl) trivial

/-! ## Expressions -/

def collapseOptionsToRef (base : Run Operand) (n : Nat) : Run Operand :=
  if n = 0 then base
  else (fun out : Run Operand => do (← out).andThen Operand.asRef)^[n - 1] (do (← base).asRef)

structure ChainRef where
  expr : Run Operand
  hasOption : Bool

/-- `(&(**..(*base)))`, with one dereference more than there are smart pointers. -/
def derefRefExpr (baseRef : Run Operand) (smartPtrs : Nat) : Run Operand :=
  if smartPtrs = 0 then baseRef
  else do
    let out ← (fun out : Run Operand => do (← out).deref)^[smartPtrs] (do (← baseRef).deref)
    .ok (.ref out)

def applyPendingSmartPtrs (expr : Run Operand) (hasOption : Bool) (smartPtrs : Nat) : Run Operand :=
  if smartPtrs = 0 then expr
  else if hasOption then do (← expr).map fun param => derefRefExpr (.ok param) smartPtrs
  else derefRefExpr expr smartPtrs

/-- The loop state of `access_chain_to_ref`. -/
structure ChainState where
  expr : Run Operand
  hasOption : Bool
  pendingSmartPtrs : Nat

def ChainState.step (s : ChainState) : AccessStep → ChainState
  | .smartPtr => { s with pendingSmartPtrs := s.pendingSmartPtrs + 1 }
  | .option =>
    let expr := applyPendingSmartPtrs s.expr s.hasOption s.pendingSmartPtrs
    if s.hasOption then ⟨do (← expr).andThen Operand.asRef, true, 0⟩
    else ⟨do (← expr).asRef, true, 0⟩

def ChainState.finish (s : ChainState) : ChainRef :=
  ⟨applyPendingSmartPtrs s.expr s.hasOption s.pendingSmartPtrs, s.hasOption⟩

def accessChainToRef (base : Run Operand) (chain : AccessChain) : ChainRef :=
  if chain.isEmpty then ⟨base, false⟩
  else if chain.isOnlyOptions then
    let optionLayers := chain.optionLayers
    ⟨if optionLayers = 1 then base else collapseOptionsToRef base optionLayers, decide (0 < optionLayers)⟩
  else (chain.steps.foldl ChainState.step ⟨base, false, 0⟩).finish

def accessChainToOptionRef (base : Run Operand) (chain : AccessChain) : Run Operand :=
  if chain.isOnlyOptions then collapseOptionsToRef base chain.optionLayers else (accessChainToRef base chain).expr

/-! ## What an expression holds -/

namespace Operand

/-- A reference to a stored value, possibly through further references. -/
def RefTo (o : Operand) (v : Value) : Prop := ∃ p, o = .ref p ∧ p.strip = .place v

/-- A computed `Option` holding a reference to the given value, or none. -/
def Holds (o : Operand) : Option Value → Prop
  | Option.none => o = .none
  | Option.some v => ∃ p, o = .some p ∧ p.RefTo v

/-- An operand a `match` takes apart into a reference to the given value, or none. -/
def MatchesTo (o : Operand) : Option Value → Prop
  | Option.none => o.matchOption = .ok Option.none
  | Option.some v => ∃ p, o.matchOption = .ok (Option.some p) ∧ p.RefTo v

theorem RefTo.strip {o : Operand} {v : Value} (h : o.RefTo v) : o.strip = .place v := by
  obtain ⟨p, rfl, hp⟩ := h
  exact hp

theorem RefTo.value {o : Operand} {v : Value} (h : o.RefTo v) : o.value = .ok v := value_of_strip h.strip

theorem refTo_place (v : Value) : (Operand.ref (.place v)).RefTo v := ⟨_, rfl, rfl⟩

theorem RefTo.ref {o : Operand} {v : Value} (h : o.RefTo v) : (Operand.ref o).RefTo v := ⟨o, rfl, h.strip⟩

theorem Holds.matchesTo {o : Operand} {x : Option Value} (h : o.Holds x) : o.MatchesTo x := by
  cases x with
  | none => rw [Holds] at h; subst h; rfl
  | some v =>
    obtain ⟨p, rfl, hp⟩ := h
    exact ⟨p, rfl, hp⟩

theorem MatchesTo.ref {o : Operand} {x : Option Value} (h : o.MatchesTo x) : (Operand.ref o).MatchesTo x := by
  cases x with
  | none =>
    rw [MatchesTo] at h
    simp only [MatchesTo, matchOption, h]
    rfl
  | some v =>
    obtain ⟨p, hm, hp⟩ := h
    refine ⟨.ref p, ?_, hp.ref⟩
    simp only [matchOption, hm]
    rfl

/-- `as_ref` on the value of an `Option`. -/
theorem asRef_place {o : Operand} {v : Value} (h : o.strip = .place v) :
    (v = .none → o.asRef = .ok .none) ∧ (∀ u, v = .some u → o.asRef = .ok (.some (.ref (.place u)))) := by
  constructor
  · rintro rfl; simp only [asRef, h]
  · rintro u rfl; simp only [asRef, h]

end Operand

/-- Strip `n` pointers. -/
def Value.derefN : Nat → Value → Option Value
  | 0, v => Option.some v
  | n + 1, .ptr v => v.derefN n
  | _ + 1, _ => Option.none

theorem derefN_succ : ∀ (n : Nat) (v u : Value), v.derefN n = some (.ptr u) → v.derefN (n + 1) = some u
  | 0, v, u, h => by cases h; rfl
  | n + 1, .ptr v, u, h => derefN_succ n v u h

theorem deref_iterate : ∀ (n : Nat) (v u : Value), v.derefN n = some u →
    (fun out : Run Operand => do (← out).deref)^[n] (.ok (.place v)) = .ok (.place u)
  | 0, v, u, h => by cases h; rfl
  | n + 1, .ptr v, u, h => deref_iterate n v u h

theorem derefRefExpr_place {n : Nat} {v u : Value} (h : v.derefN n = some u) :
    derefRefExpr (.ok (.ref (.place v))) n = .ok (.ref (.place u)) := by
  unfold derefRefExpr
  split
  · rename_i h0; subst h0; cases h; rfl
  · show (do
      let out ← (fun out : Run Operand => do (← out).deref)^[n] (.ok (.place v))
      Except.ok (Operand.ref out)) = _
    rw [deref_iterate n v u h]
    rfl

/-! ## The loop -/

/-- Once the expression is an `Option`, the rest of the chain keeps it one. -/
theorem chain_from_none : ∀ (c : List AccessStep) (k : Nat),
    (c.foldl ChainState.step ⟨.ok .none, true, k⟩).finish = ⟨.ok .none, true⟩
  | [], k => by
    simp only [List.foldl_nil, ChainState.finish, applyPendingSmartPtrs]
    split <;> rfl
  | .smartPtr :: c, k => chain_from_none c (k + 1)
  | .option :: c, k => by
    have h : applyPendingSmartPtrs (.ok .none) true k = .ok .none := by
      unfold applyPendingSmartPtrs
      split <;> rfl
    rw [List.foldl_cons]
    show (c.foldl ChainState.step ⟨do (← applyPendingSmartPtrs (.ok .none) true k).andThen Operand.asRef, true, 0⟩).finish = _
    rw [h]
    exact chain_from_none c 0

theorem applyPending_some {v u : Value} {k : Nat} (h : v.derefN k = some u) :
    applyPendingSmartPtrs (.ok (.some (.ref (.place v)))) true k = .ok (.some (.ref (.place u))) := by
  unfold applyPendingSmartPtrs
  split
  · rename_i h0; subst h0; cases h; rfl
  · show (do
      let p ← derefRefExpr (.ok (.ref (.place v))) k
      Except.ok (Operand.some p)) = _
    rw [derefRefExpr_place h]
    rfl

theorem applyPending_ref {v u : Value} {k : Nat} (h : v.derefN k = some u) :
    applyPendingSmartPtrs (.ok (.ref (.place v))) false k = .ok (.ref (.place u)) := by
  unfold applyPendingSmartPtrs
  split
  · rename_i h0; subst h0; cases h; rfl
  · exact derefRefExpr_place h

theorem chain_from_some {P : Value → Prop} : ∀ (c : List AccessStep) (v u : Value) (k : Nat), v.derefN k = some u →
    HasWord P (AccessChain.word ⟨c⟩) u →
      ∃ o, (c.foldl ChainState.step ⟨.ok (.some (.ref (.place v))), true, k⟩).finish = ⟨.ok o, true⟩ ∧
        o.Holds (chainFold c u)
  | [], v, u, k, hk, _ => by
    simp only [List.foldl_nil, ChainState.finish, applyPending_some hk]
    exact ⟨_, rfl, _, rfl, Operand.refTo_place u⟩
  | .smartPtr :: c, v, u, k, hk, ht => by
    cases u with
    | ptr x => exact chain_from_some c v x (k + 1) (derefN_succ k v x hk) ht
    | none => exact ht.elim
    | some _ => exact ht.elim
    | scalar _ => exact ht.elim
    | vec _ => exact ht.elim
    | tuple _ => exact ht.elim
    | struct _ => exact ht.elim
  | .option :: c, v, u, k, hk, ht => by
    rw [List.foldl_cons]
    simp only [ChainState.step, applyPending_some hk, ite_true]
    cases u with
    | none =>
      show ∃ o, (c.foldl ChainState.step ⟨.ok .none, true, 0⟩).finish = _ ∧ _
      exact ⟨_, chain_from_none c 0, rfl⟩
    | some x =>
      show ∃ o, (c.foldl ChainState.step ⟨.ok (.some (.ref (.place x))), true, 0⟩).finish = _ ∧ _
      exact chain_from_some c x x 0 rfl ht
    | ptr _ => exact ht.elim
    | scalar _ => exact ht.elim
    | vec _ => exact ht.elim
    | tuple _ => exact ht.elim
    | struct _ => exact ht.elim

/-- The state after the first `Option` of a chain. -/
theorem chain_from_asRef {P : Value → Prop} {o : Operand} {v : Value} (c : List AccessStep) (h : o.strip = .place v)
    (ht : HasWord P (AccessChain.word ⟨.option :: c⟩) v) :
    ∃ p, (c.foldl ChainState.step ⟨o.asRef, true, 0⟩).finish = ⟨.ok p, true⟩ ∧ p.Holds (chainFold (.option :: c) v) := by
  obtain ⟨h1, h2⟩ := Operand.asRef_place h
  cases v with
  | none => rw [h1 rfl]; exact ⟨_, chain_from_none c 0, rfl⟩
  | some x => rw [h2 x rfl]; exact chain_from_some c x x 0 rfl ht
  | ptr _ => exact ht.elim
  | scalar _ => exact ht.elim
  | vec _ => exact ht.elim
  | tuple _ => exact ht.elim
  | struct _ => exact ht.elim

theorem chain_from_ref {P : Value → Prop} : ∀ (c : List AccessStep) (v u : Value) (k : Nat), v.derefN k = some u →
    HasWord P (AccessChain.word ⟨c⟩) u →
      ∃ o b, (c.foldl ChainState.step ⟨.ok (.ref (.place v)), false, k⟩).finish = ⟨.ok o, b⟩ ∧
        (b = decide (.option ∈ c)) ∧
        (b = true → o.Holds (chainFold c u)) ∧ (b = false → ∃ x, chainFold c u = some x ∧ o.RefTo x)
  | [], v, u, k, hk, _ => by
    refine ⟨.ref (.place u), false, ?_, by simp, by simp, fun _ => ⟨u, rfl, Operand.refTo_place u⟩⟩
    simp only [List.foldl_nil, ChainState.finish, applyPending_ref hk]
  | .smartPtr :: c, v, u, k, hk, ht => by
    cases u with
    | ptr x =>
      obtain ⟨o, b, h1, h2, h3, h4⟩ := chain_from_ref c v x (k + 1) (derefN_succ k v x hk) ht
      exact ⟨o, b, h1, by simpa using h2, h3, h4⟩
    | none => exact ht.elim
    | some _ => exact ht.elim
    | scalar _ => exact ht.elim
    | vec _ => exact ht.elim
    | tuple _ => exact ht.elim
    | struct _ => exact ht.elim
  | .option :: c, v, u, k, hk, ht => by
    obtain ⟨p, hp, hh⟩ := chain_from_asRef (o := .ref (.place u)) c rfl ht
    refine ⟨p, true, ?_, by simp, fun _ => hh, by simp⟩
    rw [List.foldl_cons, ← hp]
    simp only [ChainState.step, applyPending_ref hk]
    rfl

/-! ## Bases -/

/-- The bases a chain is applied to: a reference to a stored value or, for a chain that
    starts with an `Option`, an `Option` computed before. -/
inductive ChainBase : List AccessStep → Operand → Value → Prop
  | ref (c : List AccessStep) (v : Value) : ChainBase c (.ref (.place v)) v
  | absent {c : List AccessStep} {o : Operand} (h : o.strip = .none) : ChainBase (.option :: c) o .none
  | present {c : List AccessStep} {o p : Operand} {x : Value} (h : o.strip = .some p) (hp : p.strip = .place x)
      (hm : o.MatchesTo (Option.some x)) (hc : ∀ c', c ≠ .smartPtr :: c') : ChainBase (.option :: c) o (.some x)

theorem chainBase_nil {o : Operand} {v : Value} (h : ChainBase [] o v) : o = .ref (.place v) := by
  cases h
  rfl

/-- A computed `Option` of references. -/
theorem ChainBase.holds {c : List AccessStep} {o p : Operand} {x : Value} (h : o.strip = .some p) (hp : p.RefTo x)
    (hc : ∀ c', c ≠ .smartPtr :: c') : ChainBase (.option :: c) o (.some x) := by
  have hm : ∀ o : Operand, o.strip = .some p → o.MatchesTo (Option.some x) := by
    intro o
    induction o with
    | ref o ih => exact fun h => (ih h).ref
    | place v => intro h; cases h
    | none => intro h; cases h
    | some q => intro h; cases h; exact ⟨p, rfl, hp⟩
  exact .present h hp.strip (hm o h) hc

/-- What an expression built from a chain evaluates to. -/
structure ChainValue (P : Operand → Option Value → Prop) (c : List AccessStep) (v : Value) (o : Operand) : Prop where
  optional : .option ∈ c → P o (chainFold c v)
  bare : .option ∉ c → ∃ x, chainFold c v = some x ∧ o.RefTo x

theorem ChainValue.mono {P Q : Operand → Option Value → Prop} {c : List AccessStep} {v : Value} {o : Operand}
    (h : ChainValue P c v o) (hPQ : ∀ o x, P o x → Q o x) : ChainValue Q c v o :=
  ⟨fun hc => hPQ _ _ (h.optional hc), h.bare⟩

theorem chain_loop {P : Value → Prop} {c : List AccessStep} {o : Operand} {v : Value} (hb : ChainBase c o v)
    (ht : HasWord P (AccessChain.word ⟨c⟩) v) :
    ∃ e, (c.foldl ChainState.step ⟨.ok o, false, 0⟩).finish = ⟨.ok e, decide (.option ∈ c)⟩ ∧
      ChainValue Operand.Holds c v e := by
  cases hb with
  | ref =>
    obtain ⟨e, b, h1, h2, h3, h4⟩ := chain_from_ref c v v 0 rfl ht
    refine ⟨e, h2 ▸ h1, fun hc => h3 (by simpa [h2] using hc), fun hc => h4 (by simpa [h2] using hc)⟩
  | @absent c _ h =>
    have hr : o.asRef = .ok .none := by simp only [Operand.asRef, h]
    refine ⟨.none, ?_, fun _ => rfl, fun hc => absurd List.mem_cons_self hc⟩
    rw [List.foldl_cons]
    show (c.foldl ChainState.step ⟨o.asRef, true, 0⟩).finish = _
    rw [hr, chain_from_none c 0]
    simp
  | @present c _ p x h hp _ hc =>
    have hr : o.asRef = .ok (.some (.ref p)) := by simp only [Operand.asRef, h]
    suffices hs : ∃ e, (c.foldl ChainState.step ⟨o.asRef, true, 0⟩).finish = ⟨.ok e, true⟩ ∧ e.Holds (chainFold c x) by
      obtain ⟨e, h1, h2⟩ := hs
      refine ⟨e, ?_, fun _ => h2, fun hc => absurd List.mem_cons_self hc⟩
      rw [List.foldl_cons]
      exact h1.trans (by simp)
    rw [hr]
    cases c with
    | nil => exact ⟨_, rfl, _, rfl, p, rfl, hp⟩
    | cons st c =>
      cases st with
      | smartPtr => exact absurd rfl (hc c)
      | option =>
        have hx : (Operand.ref p).strip = .place x := hp
        exact chain_from_asRef c hx ht

/-! ## Collapsing a stack of `Option`s -/

theorem collapse_loop (n : Nat) (e : Run Operand) :
    (List.replicate n AccessStep.option).foldl ChainState.step ⟨e, true, 0⟩ =
      ⟨(fun out : Run Operand => do (← out).andThen Operand.asRef)^[n] e, true, 0⟩ := by
  induction n generalizing e with
  | zero => rfl
  | succ n ih => rw [List.replicate_succ, List.foldl_cons]; exact ih _

theorem collapseOptionsToRef_eq (base : Run Operand) (n : Nat) :
    collapseOptionsToRef base (n + 1) =
      ((List.replicate (n + 1) AccessStep.option).foldl ChainState.step ⟨base, false, 0⟩).finish.expr := by
  rw [List.replicate_succ, List.foldl_cons]
  show collapseOptionsToRef base (n + 1) =
    ((List.replicate n AccessStep.option).foldl ChainState.step ⟨do (← base).asRef, true, 0⟩).finish.expr
  rw [collapse_loop]
  rfl

theorem onlyOptions_steps {c : AccessChain} (h : c.isOnlyOptions = true) :
    c.steps = List.replicate c.optionLayers .option := by
  obtain ⟨steps⟩ := c
  induction steps with
  | nil => rfl
  | cons st steps ih =>
    simp only [AccessChain.isOnlyOptions, List.all_cons, Bool.and_eq_true, beq_iff_eq] at h
    obtain ⟨rfl, h⟩ := h
    rw [AccessChain.optionLayers_cons_option, List.replicate_succ]
    exact congrArg (AccessStep.option :: ·) (ih h)

theorem optionLayers_pos {c : AccessChain} : 0 < c.optionLayers ↔ .option ∈ c.steps := by
  simp [AccessChain.optionLayers, List.countP_pos_iff]

theorem collapseOptionsToRef_spec {P : Value → Prop} {c : AccessChain} {o : Operand} {v : Value}
    (hc : c.isOnlyOptions = true) (hpos : 0 < c.optionLayers) (hb : ChainBase c.steps o v) (ht : HasWord P c.word v) :
    ∃ e, collapseOptionsToRef (.ok o) c.optionLayers = .ok e ∧ e.Holds (chainFold c.steps v) := by
  obtain ⟨e, h1, h2⟩ := chain_loop hb ht
  refine ⟨e, ?_, h2.optional (optionLayers_pos.mp hpos)⟩
  rw [onlyOptions_steps hc] at h1
  obtain ⟨n, hn⟩ := Nat.exists_eq_succ_of_ne_zero (Nat.pos_iff_ne_zero.mp hpos)
  rw [hn] at h1 ⊢
  rw [collapseOptionsToRef_eq, h1]

/-! ## The chain -/

theorem matchesTo_ref_place {v : Value} {P : Value → Prop} (ht : HasWord P [.option] v) :
    (Operand.ref (.place v)).MatchesTo (chainFold [.option] v) := by
  cases v with
  | none => rfl
  | some u => exact ⟨_, rfl, Operand.refTo_place u⟩
  | ptr _ => exact ht.elim
  | scalar _ => exact ht.elim
  | vec _ => exact ht.elim
  | tuple _ => exact ht.elim
  | struct _ => exact ht.elim

theorem matchesTo_strip {o : Operand} {x : Option Value} (h : o.strip.Holds x) : o.MatchesTo x := by
  induction o with
  | ref o ih => exact (ih h).ref
  | place v => exact h.matchesTo
  | none => exact h.matchesTo
  | some p => exact h.matchesTo

/-- The expression for a chain: a `match` on it finds the value the chain leads to, or
    none; without an `Option` it is a reference to that value. -/
theorem accessChainToRef_spec {P : Value → Prop} {c : AccessChain} {o : Operand} {v : Value}
    (hb : ChainBase c.steps o v) (ht : HasWord P c.word v) :
    (accessChainToRef (.ok o) c).hasOption = decide (0 < c.optionLayers) ∧
      ∃ e, (accessChainToRef (.ok o) c).expr = .ok e ∧ ChainValue Operand.MatchesTo c.steps v e := by
  unfold accessChainToRef
  split
  · rename_i hnil
    obtain ⟨steps⟩ := c
    cases steps with
    | cons _ _ => cases hnil
    | nil =>
      cases hb with
      | ref => exact ⟨rfl, _, rfl, fun h => (by cases h), fun _ => ⟨v, rfl, Operand.refTo_place v⟩⟩
  · rename_i hnil
    split
    · rename_i honly
      have hsteps := onlyOptions_steps honly
      have hpos : 0 < c.optionLayers := by
        rcases Nat.eq_zero_or_pos c.optionLayers with h0 | h0
        · rw [h0] at hsteps
          exact absurd (by simp [AccessChain.isEmpty, hsteps]) hnil
        · exact h0
      refine ⟨rfl, ?_⟩
      dsimp only
      split
      · rename_i h1
        rw [h1] at hsteps
        refine ⟨o, rfl, fun _ => ?_, fun h => absurd (optionLayers_pos.mp hpos) h⟩
        obtain ⟨steps⟩ := c
        simp only [List.replicate_one] at hsteps
        subst hsteps
        cases hb with
        | ref => exact matchesTo_ref_place ht
        | absent h => exact matchesTo_strip (by rw [h]; rfl)
        | present h hp hm => exact hm
      · obtain ⟨e, h1, h2⟩ := collapseOptionsToRef_spec honly hpos hb ht
        exact ⟨e, h1, fun _ => h2.matchesTo, fun h => absurd (optionLayers_pos.mp hpos) h⟩
    · obtain ⟨e, h1, h2⟩ := chain_loop hb ht
      rw [h1]
      exact ⟨by simp only [optionLayers_pos], e, rfl, h2.mono fun _ _ h => h.matchesTo⟩

/-- The `Option` form of a chain is a computed `Option`. -/
theorem accessChainToOptionRef_spec {P : Value → Prop} {c : AccessChain} {o : Operand} {v : Value}
    (hpos : 0 < c.optionLayers) (hb : ChainBase c.steps o v) (ht : HasWord P c.word v) :
    ∃ e, accessChainToOptionRef (.ok o) c = .ok e ∧ e.Holds (chainFold c.steps v) := by
  unfold accessChainToOptionRef
  split
  · rename_i honly
    exact collapseOptionsToRef_spec honly hpos hb ht
  · rename_i honly
    obtain ⟨e, h1, h2⟩ := chain_loop hb ht
    have hmem := optionLayers_pos.mp hpos
    have hne : c.isEmpty = false := by
      obtain ⟨steps⟩ := c
      cases steps with
      | nil => cases hmem
      | cons _ _ => rfl
    refine ⟨e, ?_, h2.optional hmem⟩
    simp only [accessChainToRef, hne, honly]
    rw [h1]
    rfl

/-- Beyond a single plain `Option` the expression of an optional chain is a computed `Option`. -/
theorem accessChainToRef_holds {P : Value → Prop} {c : AccessChain} {o : Operand} {v : Value} (hpos : 0 < c.optionLayers)
    (hmany : c.isSinglePlainOption = false) (hb : ChainBase c.steps o v) (ht : HasWord P c.word v) :
    ∃ e, (accessChainToRef (.ok o) c).expr = .ok e ∧ e.Holds (chainFold c.steps v) := by
  have hmem := optionLayers_pos.mp hpos
  have hne : c.isEmpty = false := by
    obtain ⟨steps⟩ := c
    cases steps with
    | nil => cases hmem
    | cons _ _ => rfl
  cases honly : c.isOnlyOptions with
  | true =>
    have hone : c.optionLayers ≠ 1 := by
      intro h1
      have hsteps := onlyOptions_steps honly
      rw [h1, List.replicate_one] at hsteps
      simp [AccessChain.isSinglePlainOption, hsteps] at hmany
    simp only [accessChainToRef, hne, honly, hone, Bool.false_eq_true, ite_false, ite_true]
    exact collapseOptionsToRef_spec honly hpos hb ht
  | false =>
    obtain ⟨e, h1, h2⟩ := chain_loop hb ht
    refine ⟨e, ?_, h2.optional hmem⟩
    simp only [accessChainToRef, hne, honly, Bool.false_eq_true, ite_false]
    rw [h1]

/-- `has_option` of a chain does not depend on the base. -/
theorem accessChainToRef_hasOption (base : Run Operand) (chain : AccessChain) :
    (accessChainToRef base chain).hasOption = decide (.option ∈ chain.steps) := by
  have hloop : ∀ (steps : List AccessStep) (s : ChainState),
      (steps.foldl ChainState.step s).hasOption = (s.hasOption || decide (.option ∈ steps)) := by
    intro steps
    induction steps with
    | nil => intro s; simp
    | cons st steps ih =>
      intro s
      rw [List.foldl_cons, ih]
      cases st with
      | smartPtr => simp [ChainState.step]
      | option =>
        have : (s.step .option).hasOption = true := by
          simp only [ChainState.step]
          split <;> rfl
        simp [this]
  unfold accessChainToRef
  split
  · rename_i h
    have : chain.steps = [] := by simpa [AccessChain.isEmpty] using h
    simp [this]
  · split
    · have := @optionLayers_pos chain
      simp only [this]
    · show (chain.steps.foldl ChainState.step ⟨base, false, 0⟩).hasOption = _
      rw [hloop]
      simp

/-- A chain that starts with an `Option` may start from the place itself. -/
theorem accessChainToOptionRef_place {c : AccessChain} {steps : List AccessStep} (hc : c.steps = .option :: steps)
    (v : Value) : accessChainToOptionRef (.ok (.place v)) c = accessChainToOptionRef (.ok (.ref (.place v))) c := by
  have hpos : 0 < c.optionLayers := optionLayers_pos.mpr (by rw [hc]; exact List.mem_cons_self)
  have hne : c.isEmpty = false := by simp [AccessChain.isEmpty, hc]
  unfold accessChainToOptionRef
  split
  · simp only [collapseOptionsToRef, if_neg (Nat.pos_iff_ne_zero.mp hpos), ok_bind]
    rfl
  · rename_i hall
    simp only [accessChainToRef, hne, hall, Bool.false_eq_true, ite_false, hc, List.foldl_cons]
    rfl

/-! ## Options -/

namespace Operand

/-- An `Option` place or a computed `Option`, holding the given value or none. -/
def OptionOf (o : Operand) : Option Value → Prop
  | Option.none => o.strip = .none ∨ o.strip = .place .none
  | Option.some u => o.strip = .place (.some u) ∨ ∃ p, o.strip = .some p ∧ p.strip = .place u

/-- An operand a `match` takes apart into an operand for the given value, or none. -/
def MatchesPlace (o : Operand) : Option Value → Prop
  | Option.none => o.matchOption = .ok Option.none
  | Option.some u => ∃ p, o.matchOption = .ok (Option.some p) ∧ p.strip = .place u

/-- A `match` on an `Option` binds its value. -/
theorem OptionOf.matches {o : Operand} {x : Option Value} (h : o.OptionOf x) : o.MatchesPlace x := by
  induction o with
  | ref o ih =>
    have hi := ih h
    cases x with
    | none =>
      simp only [MatchesPlace, matchOption] at hi ⊢
      rw [hi]
      rfl
    | some u =>
      obtain ⟨p, hp, hs⟩ := hi
      refine ⟨.ref p, ?_, hs⟩
      simp only [matchOption, hp]
      rfl
  | place v =>
    cases x with
    | none =>
      rcases h with h | h
      · cases h
      · cases h; rfl
    | some u =>
      rcases h with h | ⟨p, h, -⟩
      · cases h; exact ⟨_, rfl, rfl⟩
      · cases h
  | none =>
    cases x with
    | none => rfl
    | some u =>
      rcases h with h | ⟨p, h, -⟩
      · cases h
      · cases h
  | some q =>
    cases x with
    | none => rcases h with h | h <;> cases h
    | some u =>
      rcases h with h | ⟨p, h, hp⟩
      · cases h
      · cases h; exact ⟨q, rfl, hp⟩

theorem OptionOf.ref {o : Operand} {x : Option Value} (h : o.OptionOf x) : (Operand.ref o).OptionOf x := by
  cases x with
  | none => exact h
  | some u => exact h

theorem OptionOf.asRef {o : Operand} {x : Option Value} (h : o.OptionOf x) : ∃ e, o.asRef = .ok e ∧ e.Holds x := by
  cases x with
  | none =>
    refine ⟨.none, ?_, rfl⟩
    rcases h with h | h <;> simp only [Operand.asRef, h]
  | some u =>
    rcases h with h | ⟨p, h, hp⟩
    · exact ⟨.some (.ref (.place u)), by simp only [Operand.asRef, h], _, rfl, refTo_place u⟩
    · exact ⟨.some (.ref p), by simp only [Operand.asRef, h], _, rfl, p, rfl, hp⟩

theorem Holds.optionOf {o : Operand} {x : Option Value} (h : o.Holds x) : o.OptionOf x := by
  cases x with
  | none => rw [Holds] at h; subst h; exact Or.inl rfl
  | some v =>
    obtain ⟨p, rfl, hp⟩ := h
    exact Or.inr ⟨p, rfl, hp.strip⟩

/-- `copied` takes the references off. -/
theorem Holds.copied {o : Operand} {x : Option Value} (h : o.Holds x) : ∃ e, o.copied = .ok e ∧ e.OptionOf x := by
  cases x with
  | none => rw [Holds] at h; subst h; exact ⟨.none, rfl, Or.inl rfl⟩
  | some v =>
    obtain ⟨p, rfl, q, rfl, hq⟩ := h
    exact ⟨.some q, rfl, Or.inr ⟨q, rfl, hq⟩⟩

end Operand

/-! ## Leaf operands -/

/-- The operand bound for a leaf: an optional one with an `Option` above the leaf. -/
def LeafReads (hasInnerOption : Bool) (o : Operand) (x : Option Value) : Prop :=
  if hasInnerOption then o.MatchesTo x else ∃ u, x = some u ∧ o.RefTo u

theorem LeafReads.optional {o : Operand} {x : Option Value} (h : LeafReads true o x) : o.MatchesTo x := by
  simpa [LeafReads] using h

theorem LeafReads.bare {o : Operand} {x : Option Value} (h : LeafReads false o x) : ∃ u, x = some u ∧ o.RefTo u := by
  simpa [LeafReads] using h

/-- The finished expression of a chain is a leaf operand. -/
theorem ChainValue.leafReads {steps : List AccessStep} {hasInnerOption : Bool} {v : Value} {o : Operand}
    (h : ChainValue Operand.MatchesTo steps v o) (hopt : hasInnerOption = true ↔ .option ∈ steps) :
    LeafReads hasInnerOption o (chainFold steps v) := by
  cases hasInnerOption with
  | true => exact h.optional (hopt.mp rfl)
  | false =>
    obtain ⟨x, hx, href⟩ := h.bare fun hc => absurd (hopt.mpr hc) (by simp)
    exact ⟨x, hx, href⟩

end DfDerive
