/-
  DfDerive.Lower.Validation — a struct may not hold itself (`lower/validation.rs`).

  The check looks at the types that are left as paths of other structs, under any wrappers
  and in any tuples, and compares them with the ways a struct can name itself.
-/

import DfDerive.TypeAnalysis.Analysis

namespace DfDerive

/-- What lowering of a written field reports about its type (`errors/validation.rs`). -/
structure SelfReference where
  field : String
  structName : String
  deriving DecidableEq, Repr

def SelfReference.message (e : SelfReference) : String :=
  s!"field `{e.field}` recursively references `{e.structName}` after transparent wrapper peeling; recursive nested " ++
    "DataFrame schemas are not supported. Store an identifier or foreign key, flatten the structure before deriving, " ++
    "or mark the field `#[df_derive(skip)]`."

def isDirectSelfType (ty : FieldType) (structName : String) : Bool :=
  match ty.pathView with
  | some [last] => last.ident == "Self" || last.ident == structName
  | some [first, last] =>
    first.arguments.isNone && (first.ident == "crate" || first.ident == "self") && last.ident == structName
  | _ => false

mutual
def rejectDirectSelfReference (field structName : String) : AnalyzedFieldType → Except SelfReference Unit
  | .mk (.struct ty) _ _ _ => if isDirectSelfType ty structName then .error ⟨field, structName⟩ else .ok ()
  | .mk (.tuple elements) _ _ _ => rejectSelfInElements field structName elements
  | .mk _ _ _ _ => .ok ()

def rejectSelfInElements (field structName : String) : List AnalyzedFieldType → Except SelfReference Unit
  | [] => .ok ()
  | element :: elements => do
    rejectDirectSelfReference field structName element
    rejectSelfInElements field structName elements
end

end DfDerive
