/-
  DfDerive.Codegen.SourceAccess — access expressions of columns (`codegen/source_access.rs`).

  A column starts from a field of the row, reached by name or by index and through the
  pointers around it. A column of a tuple field goes on to an element: below nothing it is
  projected in place (`tupleStaticAccess`), below `Option`s inside a `map` over the
  collapsed parent (`tupleParentOptionAccess`). `FieldSource.value?` and `pathValue` are the
  values these expressions read.
-/

import DfDerive.Codegen.ShapeWords
import DfDerive.Codegen.TypeRegistry
import DfDerive.Ir.Columns

namespace DfDerive

open Lib

/-! ## Fields -/

/-- A named field is found by its name, a field of a tuple struct by its index. -/
def FieldSource.raw? (field : FieldSource) : Value → Option Value
  | .struct fields => match field.fieldIndex with
    | none => (fields.find? (·.1 == field.name)).map (·.2)
    | some i => (fields[i]?).map (·.2)
  | _ => none

/-- `it.name` or `it.0`, through references. -/
def Operand.structField (it : Operand) (field : FieldSource) : Run Operand :=
  match it.strip with
  | .place v => match field.raw? v with
    | Option.some x => .ok (.place x)
    | Option.none => .error .illTyped
  | _ => .error .illTyped

def applyOuterSmartPtrDeref (expr : Run Operand) (depth : Nat) : Run Operand := derefSmartPtrs depth expr

def fieldSourceAccess (field : FieldSource) (it : Operand) : Run Operand :=
  applyOuterSmartPtrDeref (it.structField field) field.outerSmartPtrDepth

def fieldColumnAccess (column : FieldColumn) : Operand → Run Operand := fieldSourceAccess column.source

/-! ## Tuple elements -/

/-- `(expr).i`, then one dereference for each pointer around the element. -/
def projectionStep (expr : Run Operand) (step : TupleProjectionStep) : Run Operand :=
  applyOuterSmartPtrDeref (do (← expr).tupleIndex step.index) step.outerSmartPtrDepth

def applyTuplePath (expr : Run Operand) (path : TupleProjectionPath) : Run Operand := path.toList.foldl projectionStep expr

def tupleStaticAccess (column : TupleStaticColumn) (it : Operand) : Run Operand :=
  applyTuplePath (fieldSourceAccess column.root it) column.path

/-- `&(((*(tuple_ref)).i) ..)` -/
def projectTuplePathRef (tupleRef : Operand) (path : TupleProjectionPath) : Run Operand := do
  let projected ← path.toList.foldl projectionStep tupleRef.deref
  .ok (.ref projected)

def projectParentOptionTupleColumn (collapsedParent : Run Operand) (path : TupleProjectionPath) (copyProjection : Bool) :
    Run Operand := do
  (← collapsedParent).map fun param => do
    let projectedRef ← projectTuplePathRef param path
    if copyProjection then projectedRef.deref else .ok projectedRef

def isCopyParentOptionProjection (column : TupleParentOptionColumn) : Bool :=
  match column.leafSpec.route, column.wrapperShape with
  | .primitive primitive, .leaf (.optional _ access) =>
    match access.steps with
    | .option :: rest => primitive.isCopy && rest.all (· == .option)
    | _ => false
  | _, _ => false

def tupleParentOptionAccess (column : TupleParentOptionColumn) (it : Operand) : Run Operand :=
  let rootAccess := fieldSourceAccess column.root it
  let collapsed := do accessChainToOptionRef (.ok (← rootAccess)) column.parentAccess
  projectParentOptionTupleColumn collapsed column.path (isCopyParentOptionProjection column)

def tupleParentOptionSomeReceiver (column : TupleParentOptionColumn) : Option PrimitiveExprReceiver :=
  if isCopyParentOptionProjection column then none
  else match column.wrapperShape with
    | .leaf (.optional optionLayers access) =>
      if optionLayers = 1 ∧ access.isSinglePlainOption then some .refRef else none
    | _ => none

/-! ## What the accesses read -/

/-- The value of a field, its pointers removed. -/
def FieldSource.value? (field : FieldSource) (row : Value) : Option Value :=
  (field.raw? row).bind (Value.derefN field.outerSmartPtrDepth)

/-- The element at the end of a path. -/
def pathValue : List TupleProjectionStep → Value → Option Value
  | [], v => some v
  | step :: path, v => (projectValue step.index step.outerSmartPtrDepth v).bind (pathValue path)

theorem derefSmartPtrs_place {n : Nat} {v u : Value} (h : v.derefN n = some u) :
    derefSmartPtrs n (.ok (.place v)) = .ok (.place u) :=
  deref_iterate n v u h

/-- The field of a row, through any references to the row. -/
theorem fieldSourceAccess_eq {field : FieldSource} {it : Operand} {row x : Value} (hit : it.strip = .place row)
    (hx : field.value? row = some x) : fieldSourceAccess field it = .ok (.place x) := by
  obtain ⟨y, hy, hd⟩ := Option.bind_eq_some_iff.mp hx
  have hfield : it.structField field = .ok (.place y) := by simp only [Operand.structField, hit, hy]
  rw [fieldSourceAccess, hfield]
  exact derefSmartPtrs_place hd

theorem projectionStep_place {step : TupleProjectionStep} {t x : Value}
    (hx : projectValue step.index step.outerSmartPtrDepth t = some x) :
    projectionStep (.ok (.place t)) step = .ok (.place x) := by
  cases t with
  | tuple vs =>
    obtain ⟨y, hy, hd⟩ := Option.bind_eq_some_iff.mp hx
    have hidx : (Operand.place (.tuple vs)).tupleIndex step.index = .ok (.place y) := by
      simp only [Operand.tupleIndex, Operand.strip_place, hy]
    simp only [projectionStep, applyOuterSmartPtrDeref, ok_bind, hidx]
    exact derefSmartPtrs_place hd
  | scalar _ => cases hx
  | none => cases hx
  | some _ => cases hx
  | ptr _ => cases hx
  | vec _ => cases hx
  | struct _ => cases hx

theorem path_place : ∀ {path : List TupleProjectionStep} {t x : Value}, pathValue path t = some x →
    path.foldl projectionStep (.ok (.place t)) = .ok (.place x)
  | [], t, x, h => by cases h; rfl
  | step :: path, t, x, h => by
    obtain ⟨y, hy, hx⟩ := Option.bind_eq_some_iff.mp h
    rw [List.foldl_cons, projectionStep_place hy]
    exact path_place hx

/-- An element projected in place. -/
theorem tupleStaticAccess_eq {column : TupleStaticColumn} {it : Operand} {row t x : Value} (hit : it.strip = .place row)
    (ht : column.root.value? row = some t) (hx : pathValue column.path.toList t = some x) :
    tupleStaticAccess column it = .ok (.place x) := by
  rw [tupleStaticAccess, fieldSourceAccess_eq hit ht]
  exact path_place hx

/-- A projection starts at the tuple, behind however many references. -/
theorem projectionStep_strip {step : TupleProjectionStep} {o : Operand} {t : Value} (h : o.strip = .place t) :
    projectionStep (.ok o) step = projectionStep (.ok (.place t)) step := by
  simp only [projectionStep, ok_bind, Operand.tupleIndex, h, Operand.strip_place]

theorem projectTuplePathRef_eq {o : Operand} {path : TupleProjectionPath} {t x : Value} (ho : o.RefTo t)
    (hx : pathValue path.toList t = some x) : projectTuplePathRef o path = .ok (.ref (.place x)) := by
  obtain ⟨p, rfl, hp⟩ := ho
  have hfold : path.toList.foldl projectionStep (.ok p) = .ok (.place x) := by
    rw [← path_place hx, NonEmpty.toList, List.foldl_cons, List.foldl_cons, projectionStep_strip hp]
  simp only [projectTuplePathRef, Operand.deref, hfold, ok_bind]

/-- The value a column below `Option`s starts from: the element, absent with its tuple. -/
def parentOptionValue (tuple : Option Value) (path : List TupleProjectionStep) : Value :=
  match tuple with
  | some t => .some ((pathValue path t).getD .none)
  | none => .none

theorem tupleParentOptionAccess_eq {P : Value → Prop} {column : TupleParentOptionColumn} {it : Operand} {row v : Value}
    {steps : List AccessStep} (hsteps : column.parentAccess.steps = .option :: steps) (hit : it.strip = .place row)
    (hv : column.root.value? row = some v) (ht : HasWord P column.parentAccess.word v)
    (hpath : ∀ t, P t → (pathValue column.path.toList t).isSome = true) {c : List AccessStep}
    (hc : ∀ c', c ≠ .smartPtr :: c') :
    ∃ o, tupleParentOptionAccess column it = .ok o ∧ ChainBase (.option :: c) (.ref o)
      (parentOptionValue (chainFold column.parentAccess.steps v) column.path.toList) := by
  have hpos : 0 < column.parentAccess.optionLayers := optionLayers_pos.mpr (by rw [hsteps]; exact List.mem_cons_self)
  obtain ⟨e, he, hholds⟩ := accessChainToOptionRef_spec hpos (.ref _ v) ht
  have hcollapsed : (do accessChainToOptionRef (.ok (← fieldSourceAccess column.root it)) column.parentAccess) = .ok e := by
    rw [fieldSourceAccess_eq hit hv, ok_bind, accessChainToOptionRef_place hsteps, he]
  simp only [tupleParentOptionAccess, projectParentOptionTupleColumn, hcollapsed, ok_bind]
  rcases HasWord.chain column.parentAccess.steps ht with ⟨t, hfold, hP, -⟩ | ⟨hfold, -⟩
  · rw [hfold] at hholds ⊢
    obtain ⟨p, rfl, hp⟩ := hholds
    obtain ⟨x, hx⟩ := Option.isSome_iff_exists.mp (hpath t hP)
    simp only [Operand.map, projectTuplePathRef_eq hp hx, ok_bind, parentOptionValue, hx, Option.getD_some]
    -- a copied element is held as a place, any other one behind its reference
    cases isCopyParentOptionProjection column with
    | true => exact ⟨_, rfl, .present rfl rfl ⟨_, rfl, Operand.refTo_place x⟩ hc⟩
    | false => exact ⟨_, rfl, .present rfl rfl ⟨_, rfl, (Operand.refTo_place x).ref⟩ hc⟩
  · rw [hfold] at hholds ⊢
    obtain rfl : e = .none := hholds
    exact ⟨.none, rfl, .absent rfl⟩

/-- A receiver chosen by the access is never the place of an owned value. -/
theorem tupleParentOptionSomeReceiver_ne (column : TupleParentOptionColumn) :
    tupleParentOptionSomeReceiver column ≠ some .place := by
  unfold tupleParentOptionSomeReceiver
  split
  · simp
  · split
    · split <;> simp
    · simp

end DfDerive
