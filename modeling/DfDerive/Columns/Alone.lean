/-
  DfDerive.Columns.Alone — one column of a struct, run without the others.

  `ColumnIR.run` runs the declarations, the row loop and the builders of one column; in a
  batch the columns run side by side and give what they give alone (`columnarParts_runs`).
  `ColumnIR.Follows.run_primitive` is what a column of primitive leaves gives.
-/

import DfDerive.Derived.Tree

namespace DfDerive

open Lib

/-- The column's part of a batch. -/
def ColumnIR.run (env : Env) (c : ColumnIR) (items : List Operand) : Run (List Series) :=
  columnarParts [buildColumnEmit env c] items

theorem ColumnEmit.Emits.alone {E : Fault → Prop} {emit : ColumnEmit} {items : List Operand} {G : Prop}
    {P : List Series → Prop} (h : emit.Emits E items G P) : Runs E (columnarParts [emit] items) G P := by
  have hrun := columnarParts_runs (G := fun _ : Unit => G) (P := fun _ => P) (List.Forall₂.cons h .nil : List.Forall₂ _ [emit] [()])
  refine Runs.mono (Runs.congr hrun (by simp)) fun _ out hout => ?_
  obtain ⟨outs, rfl, houts⟩ := hout
  cases houts with
  | cons hP hnil =>
    cases hnil
    rw [List.flatten_singleton]
    exact hP

section

variable {c : ColumnIR} {w : Walk} {carried : Bool} {items : List Operand}

/-- A column of primitive leaves converts when its lists fit and its leaves have encodings. -/
theorem ColumnIR.Follows.run_primitive (h : c.Follows w carried) (env : Env) {leaf : PrimitiveLeaf}
    (hroute : c.leafSpec.route = .primitive leaf) (hrows : RowItems items)
    (ht : ∀ it ∈ items, w.typed (LeafTyped leaf) it.erase) :
    Run.Spec (c.run env items) (w.fits (AllEncode env.traits leaf) (items.map Operand.erase))
      (PrimitiveColumn leaf (columnCell env.traits leaf w.depth) w c.name (items.map Operand.erase)) :=
  (h.primitive env leaf items hroute hrows ht).alone

/-- An implementation that answers, or reports an error, for values of its row type. -/
structure Impl.Answers (impl : Impl) (P : Value → Prop) : Prop where
  schema : ∀ f, impl.schema = .error f → f.Reported
  batch : ∀ vs, (∀ v ∈ vs, P v) → ∀ f, impl.columnarFromRefs vs = .error f → f.Reported

theorem Impl.Answers.within {impl : Impl} {P : Value → Prop} (h : impl.Answers P) {flat : List Value}
    (hflat : ∀ v ∈ flat, P v) : impl.Within Fault.Reported flat :=
  Impl.within_reported h.schema (h.batch flat hflat)

theorem Walk.leaves_typed {P : Value → Prop} (ht : ∀ it ∈ items, w.typed P it.erase) :
    ∀ u ∈ (items.map Operand.erase).flatMap w.leaves, P u := by
  intro u hu
  obtain ⟨v, hv, hu⟩ := List.mem_flatMap.mp hu
  obtain ⟨it, hit, rfl⟩ := List.mem_map.mp hv
  exact w.typed_leaves P _ (ht it hit) u hu

/-- A column of nested rows gives what the element type's batch gives, whatever that is. -/
theorem ColumnIR.Follows.run_nested (h : c.Follows w carried) (env : Env) {nested : NestedLeaf} {P : Value → Prop}
    (hroute : c.leafSpec.route = .nested nested) (hanswers : (env.impl nested.ty).Answers P) (hrows : RowItems items)
    (ht : ∀ it ∈ items, w.typed P it.erase) :
    ∃ used : Prop, (¬ used → (items.map Operand.erase).flatMap w.leaves = []) ∧
      Runs Fault.Reported (c.run env items)
        (w.fits (PositionsFit carried) (items.map Operand.erase) ∧
          NestedAnswers ⟨env.impl nested.ty, c.name, c.nestedNamePolicy⟩ ((items.map Operand.erase).flatMap w.leaves) used)
        (NestedBatch ⟨env.impl nested.ty, c.name, c.nestedNamePolicy⟩ used w.depth
          ((items.map Operand.erase).flatMap w.leaves) fun f => (items.map Operand.erase).map (w.cell f)) := by
  obtain ⟨used, hused, hemits⟩ := h.nested env nested items hroute hrows ht
    (hanswers.within (Walk.leaves_typed ht))
  exact ⟨used, hused, hemits.alone⟩

end

/-- The values at the end of a column's walk, the values of nested types being those of `P`. -/
def TerminalLeafRoute.typed (P : TypePath → Value → Prop) : TerminalLeafRoute → Value → Prop
  | .primitive spec => LeafTyped spec
  | .nested inner => P inner.ty

theorem exists_related {α β : Type} {R : α → β → Prop} {l : List α} {rs : List β} (h : List.Forall₂ R l rs) :
    ∀ a ∈ l, ∃ r ∈ rs, R a r := by
  induction h with
  | nil => exact nofun
  | cons hr _ ih =>
    intro a ha
    rcases List.mem_cons.mp ha with rfl | ha
    · exact ⟨_, List.mem_cons_self, hr⟩
    · obtain ⟨r, hmem, hr⟩ := ih a ha
      exact ⟨r, List.mem_cons_of_mem _ hmem, hr⟩

/-- What holds of every column that refers to a reference holds of the columns of a struct. -/
theorem DerivedStruct.each_column (s : DerivedStruct) {R : ColumnIR → ColumnRef → Prop}
    (h : ∀ c r, c.RefersTo r → R c r) : List.Forall₂ R s.ir.columns s.refs :=
  s.columns_refersTo.imp fun {c r} => h c r

end DfDerive
