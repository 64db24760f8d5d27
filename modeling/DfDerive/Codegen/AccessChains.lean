/-
  DfDerive.Codegen.AccessChains — access chains resolve to the reference fold.

  The shortcuts of `access_chain_to_ref` for an empty chain and for stacks of `Option`s are
  compared with its loop (`accessChainToRef_eq_loop`, `accessChainLoop_onlyOptions`), and
  the loop with `chainFold` (`accessChain_resolves`).
-/

import DfDerive.Codegen.WrapperAccess

namespace DfDerive

open Lib

/-! ## The shortcuts and the loop -/

/-- The general loop of `access_chain_to_ref`, without the shortcuts before it. -/
def accessChainLoop (base : Run Operand) (chain : AccessChain) : ChainRef :=
  (chain.steps.foldl ChainState.step ⟨base, false, 0⟩).finish

theorem accessChainLoop_spec {c : AccessChain} {o : Operand} {v : Value} (hb : ChainBase c.steps o v)
    (ht : HasWord (fun _ => True) c.word v) :
    ∃ e, accessChainLoop (.ok o) c = ⟨.ok e, decide (.option ∈ c.steps)⟩ ∧ ChainValue Operand.Holds c.steps v e :=
  chain_loop hb ht

/-- A stack of `Option`s goes through the loop to what `collapse_options_to_ref` builds. -/
theorem accessChainLoop_onlyOptions {c : AccessChain} (base : Run Operand) (h : c.isOnlyOptions = true) :
    accessChainLoop base c = ⟨collapseOptionsToRef base c.optionLayers, decide (0 < c.optionLayers)⟩ := by
  have hsteps := onlyOptions_steps h
  cases hn : c.optionLayers with
  | zero =>
    rw [hn] at hsteps
    simp only [accessChainLoop, hsteps]
    rfl
  | succ n =>
    rw [hn, List.replicate_succ] at hsteps
    simp only [accessChainLoop, hsteps, List.foldl_cons]
    show ((List.replicate n AccessStep.option).foldl ChainState.step ⟨do (← base).asRef, true, 0⟩).finish = _
    rw [collapse_loop]
    simp only [Nat.zero_lt_succ, decide_true]
    rfl

/-- The shortcuts decide nothing the loop does not, a single plain `Option` apart. -/
theorem accessChainToRef_eq_loop {c : AccessChain} (base : Run Operand) (h : c.isSinglePlainOption = false) :
    accessChainToRef base c = accessChainLoop base c := by
  unfold accessChainToRef
  split
  · rename_i hnil
    obtain ⟨steps⟩ := c
    obtain rfl : steps = [] := List.isEmpty_iff.mp hnil
    rfl
  · split
    · rename_i honly
      have hone : c.optionLayers ≠ 1 := by
        intro h1
        have hsteps := onlyOptions_steps honly
        rw [h1, List.replicate_one] at hsteps
        simp [AccessChain.isSinglePlainOption, hsteps] at h
      rw [accessChainLoop_onlyOptions base honly]
      simp only [if_neg hone]
    · rfl

theorem accessChainToOptionRef_eq_loop (base : Run Operand) (c : AccessChain) :
    accessChainToOptionRef base c = (accessChainLoop base c).expr := by
  unfold accessChainToOptionRef
  split
  · rename_i honly
    rw [accessChainLoop_onlyOptions base honly]
  · rename_i honly
    have hmany : c.isSinglePlainOption = false := by
      by_contra hone
      have hsteps : c.steps = [.option] := by simpa [AccessChain.isSinglePlainOption] using hone
      exact honly (by simp [AccessChain.isOnlyOptions, hsteps])
    rw [accessChainToRef_eq_loop base hmany]

/-! ## The fold -/

/-- What the expressions of a chain come to on a base: the value at its end, or none past
    an absent `Option`. -/
structure ChainResolves (c : AccessChain) (o : Operand) (v : Value) : Prop where
  hasOption : (accessChainToRef (.ok o) c).hasOption = decide (.option ∈ c.steps)
  toRef : ∃ e, (accessChainToRef (.ok o) c).expr = .ok e ∧ ChainValue Operand.MatchesTo c.steps v e
  toOptionRef : ∃ e, accessChainToOptionRef (.ok o) c = .ok e ∧ ChainValue Operand.Holds c.steps v e
  collapse : c.isOnlyOptions = true →
    ∃ e, collapseOptionsToRef (.ok o) c.optionLayers = .ok e ∧ ChainValue Operand.Holds c.steps v e

theorem chainResolves {c : AccessChain} {o : Operand} {v : Value} (hb : ChainBase c.steps o v)
    (ht : HasWord (fun _ => True) c.word v) : ChainResolves c o v := by
  obtain ⟨hopt, href⟩ := accessChainToRef_spec hb ht
  obtain ⟨e, hloop, he⟩ := accessChainLoop_spec hb ht
  refine ⟨?_, href, ⟨e, ?_, he⟩, fun honly => ⟨e, ?_, he⟩⟩
  · simpa only [optionLayers_pos] using hopt
  · rw [accessChainToOptionRef_eq_loop, hloop]
  · rw [accessChainLoop_onlyOptions _ honly] at hloop
    exact congrArg ChainRef.expr hloop

/-- Every access chain resolves to the fold over its steps: `access_chain_to_ref` and
    `access_chain_to_option_ref` from a reference, or from an `Option` computed before, the
    latter also from the place of an `Option`. Pure stacks of `Option`s take the fast path,
    which agrees with the loop. -/
theorem accessChain_resolves (c : AccessChain) :
    (∀ o v, ChainBase c.steps o v → HasWord (fun _ => True) c.word v → ChainResolves c o v) ∧
    (∀ v, HasWord (fun _ => True) c.word v → (∃ steps, c.steps = .option :: steps) →
      ∃ e, accessChainToOptionRef (.ok (.place v)) c = .ok e ∧ e.Holds (chainFold c.steps v)) ∧
    (∀ base, c.isOnlyOptions = true →
      accessChainLoop base c = ⟨collapseOptionsToRef base c.optionLayers, decide (.option ∈ c.steps)⟩) ∧
    (∀ base, (accessChainToRef base c).hasOption = decide (.option ∈ c.steps)) ∧
    (∀ base, c.isSinglePlainOption = false → accessChainToRef base c = accessChainLoop base c) ∧
    (∀ o v, ChainBase c.steps o v → HasWord (fun _ => True) c.word v →
      ∃ e, accessChainLoop (.ok o) c = ⟨.ok e, decide (.option ∈ c.steps)⟩ ∧ ChainValue Operand.Holds c.steps v e) := by
  refine ⟨fun o v hb ht => chainResolves hb ht, ?_, ?_, fun base => accessChainToRef_hasOption base c,
    fun base h => accessChainToRef_eq_loop base h, fun o v hb ht => accessChainLoop_spec hb ht⟩
  · rintro v ht ⟨steps, hsteps⟩
    rw [accessChainToOptionRef_place hsteps]
    exact accessChainToOptionRef_spec (optionLayers_pos.mpr (hsteps ▸ List.mem_cons_self)) (.ref _ v) ht
  · intro base honly
    rw [accessChainLoop_onlyOptions base honly]
    simp only [optionLayers_pos]

end DfDerive
