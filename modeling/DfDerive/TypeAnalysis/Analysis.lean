/-
  DfDerive.TypeAnalysis.Analysis — the analysis of a field's type as written (`type_analysis/mod.rs`, `type_analysis/wrappers.rs`).

  The wrappers come off first; what is left is refused, or is a tuple, a borrowed base, a
  generic parameter of the struct, a known type or the path of another struct. A type that is
  a generic parameter is never refused, whatever the parameter is called.
-/

import DfDerive.TypeAnalysis.WrappersProofs

namespace DfDerive

namespace FieldType

/-- The turns of the loop of `peel_type_wrappers`, and the type they end at. -/
def peelLoop (peeled : PeeledType) (ty : FieldType) : Except TypeError (PeeledType × FieldType) :=
  match _h : ty.peelLayer with
  | .error e => .error e
  | .ok none => .ok (peeled, ty)
  | .ok (some (wrapper, inner)) => peelLoop (peeled.step wrapper) inner
termination_by sizeOf ty
decreasing_by exact peelLayer_lt (by assumption)

def peelTypeWrappers (ty : FieldType) : Except TypeError (PeeledType × FieldType) := peelLoop ⟨[], 0⟩ ty

def bareGenericParamIdent (ty : FieldType) (genericParams : List String) : Option String :=
  match ty with
  | .path none _ [.mk ident .none] => if genericParams.any (· == ident) then some ident else none
  | _ => none

/-- The checks that a generic parameter escapes. -/
def rejectUnlessParam (genericParams : List String) (ty : FieldType) : Except TypeError Unit :=
  if (ty.bareGenericParamIdent genericParams).isNone then do
    ty.rejectUnsupportedCollectionType
    ty.rejectBareDuration genericParams
    ty.rejectBareUnsizedLeaf
  else .ok ()

/-- The base of a type that is a path. -/
def analyzePathBase (genericParams : List String) (ty : FieldType) : AnalyzedFieldBase :=
  match ty.bareGenericParamIdent genericParams with
  | some ident => .generic ident
  | none =>
    match ty.analyzeCowBase with
    | some base => base
    | none =>
      match ty.classifyKnownBase with
      | some known => known.intoAnalyzedBase
      | none => .struct ty

theorem peelLoop_le {peeled peeled' : PeeledType} {ty current : FieldType} (h : peelLoop peeled ty = .ok (peeled', current)) :
    sizeOf current ≤ sizeOf ty := by
  rw [peelLoop] at h
  split at h
  · cases h
  · cases h
    exact Nat.le_refl _
  · rename_i wrapper inner hlayer
    have hlt := peelLayer_lt hlayer
    have hle := peelLoop_le h
    omega
termination_by sizeOf ty
decreasing_by exact peelLayer_lt (by assumption)

mutual
def analyzeType (genericParams : List String) (ty : FieldType) : Except TypeError AnalyzedFieldType :=
  match _h : ty.peelTypeWrappers with
  | .error e => .error e
  | .ok (peeled, current) => do
    rejectUnlessParam genericParams current
    let base ← analyzeBaseType genericParams current
    .ok (.mk base peeled.wrappers ty peeled.outerSmartPtrDepth)
termination_by (sizeOf ty, 1)
decreasing_by
  have hle := peelLoop_le _h
  exact Prod.Lex.right' _ hle Nat.zero_lt_one

def analyzeBaseType (genericParams : List String) (ty : FieldType) : Except TypeError AnalyzedFieldBase :=
  match ty with
  | .tuple [] => .error .unitField
  | .tuple (elem :: elems) => do .ok (.tuple (← analyzeTypes genericParams (elem :: elems)))
  | .reference _ _ elem =>
    match borrowedReferenceBase elem with
    | some base => .ok base
    | none => .error .unsupportedFieldType
  | .path qself leadingColon segments => .ok (analyzePathBase genericParams (.path qself leadingColon segments))
  | .slice _ | .other _ => .error .unsupportedFieldType
termination_by (sizeOf ty, 0)

def analyzeTypes (genericParams : List String) (tys : List FieldType) : Except TypeError (List AnalyzedFieldType) :=
  match tys with
  | [] => .ok []
  | ty :: tys => do
    let first ← analyzeType genericParams ty
    let rest ← analyzeTypes genericParams tys
    .ok (first :: rest)
termination_by (sizeOf tys, 0)
end

end FieldType

end DfDerive
