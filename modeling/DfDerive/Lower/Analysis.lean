/-
  DfDerive.Lower.Analysis — field types (`type_analysis/mod.rs`, `type_analysis/wrappers.rs`).

  A field type is a stack of wrappers, as written, around a base whose path has been
  recognized. The analysis peels the stack: pointers above the first `Option` or `Vec` are
  counted apart, every other wrapper is kept in order (`peelTypeWrappers`). Tuples are
  analyzed element by element; the empty tuple is rejected.
-/

import DfDerive.Lower.Errors
import DfDerive.Ir.Leaf

namespace DfDerive

/-- The bases that are not tuples. -/
inductive LeafBase where
  | numeric (kind : NumericKind)
  | string
  | borrowedStr
  | cowStr
  | borrowedBytes
  | cowBytes
  | borrowedSlice
  | cowSlice
  | bool
  | dateTimeTz
  | naiveDate
  | naiveTime
  | naiveDateTime
  | stdDuration
  | chronoDuration
  | decimal
  | struct (ty : TypePath)
  | generic (ident : TypePath)
  deriving DecidableEq, Repr

mutual
/-- A type as written: wrappers, outer to inner, around a base. -/
inductive RustType where
  | mk (stack : List RawWrapper) (base : RustBase)

inductive RustBase where
  | leaf (base : LeafBase)
  | tuple (elements : List RustType)
end

mutual
inductive AnalyzedType where
  | mk (base : AnalyzedBase) (wrappers : List RawWrapper) (outerSmartPtrDepth : Nat)

inductive AnalyzedBase where
  | leaf (base : LeafBase)
  | tuple (elements : List AnalyzedType)
end

namespace AnalyzedType

def base : AnalyzedType → AnalyzedBase
  | mk b _ _ => b

def wrappers : AnalyzedType → List RawWrapper
  | mk _ w _ => w

def outerSmartPtrDepth : AnalyzedType → Nat
  | mk _ _ d => d

end AnalyzedType

/-! ## Peeling -/

structure PeeledType where
  wrappers : List RawWrapper
  outerSmartPtrDepth : Nat
  deriving DecidableEq, Repr

def recordSmartPtrLayer (p : PeeledType) : PeeledType :=
  if p.wrappers.isEmpty then { p with outerSmartPtrDepth := p.outerSmartPtrDepth + 1 }
  else { p with wrappers := p.wrappers ++ [.smartPtr] }

def PeeledType.step (p : PeeledType) : RawWrapper → PeeledType
  | .option => { p with wrappers := p.wrappers ++ [.option] }
  | .vec => { p with wrappers := p.wrappers ++ [.vec] }
  | .smartPtr => recordSmartPtrLayer p

def peelTypeWrappers (stack : List RawWrapper) : PeeledType := stack.foldl PeeledType.step ⟨[], 0⟩

/-! ## Analysis -/

mutual
def analyzeType : RustType → Except LowerError AnalyzedType
  | .mk stack base => do
    let peeled := peelTypeWrappers stack
    .ok (.mk (← analyzeBaseType base) peeled.wrappers peeled.outerSmartPtrDepth)

def analyzeBaseType : RustBase → Except LowerError AnalyzedBase
  | .leaf base => .ok (.leaf base)
  | .tuple [] => .error .unitField
  | .tuple (element :: elements) => do
    let first ← analyzeType element
    let rest ← analyzeTypes elements
    .ok (.tuple (first :: rest))

def analyzeTypes : List RustType → Except LowerError (List AnalyzedType)
  | [] => .ok []
  | element :: elements => do
    let first ← analyzeType element
    let rest ← analyzeTypes elements
    .ok (first :: rest)
end

/-! ## What peeling keeps -/

/-- A stack starts with the pointers counted apart, and the kept wrappers start with an
    `Option` or a `Vec`. -/
structure PeeledType.Of (p : PeeledType) (stack : List RawWrapper) : Prop where
  stack : stack = List.replicate p.outerSmartPtrDepth .smartPtr ++ p.wrappers
  first : ∀ ws, p.wrappers ≠ .smartPtr :: ws

theorem PeeledType.Of.step {p : PeeledType} {stack : List RawWrapper} (h : p.Of stack) (w : RawWrapper) :
    (p.step w).Of (stack ++ [w]) := by
  obtain ⟨wrappers, depth⟩ := p
  obtain ⟨hstack, hfirst⟩ := h
  have hkeep : ∀ w, (wrappers = [] → w ≠ .smartPtr) →
      (PeeledType.mk (wrappers ++ [w]) depth).Of (stack ++ [w]) := by
    intro w hw
    refine ⟨by rw [hstack, List.append_assoc], fun ws hws => ?_⟩
    cases wrappers with
    | nil =>
      cases hws
      exact hw rfl rfl
    | cons x xs =>
      cases hws
      exact hfirst xs rfl
  cases w with
  | option => exact hkeep .option fun _ => nofun
  | vec => exact hkeep .vec fun _ => nofun
  | smartPtr =>
    simp only [PeeledType.step, recordSmartPtrLayer]
    split
    · rename_i hempty
      have hnil : wrappers = [] := List.isEmpty_iff.mp hempty
      subst hnil
      refine ⟨?_, hfirst⟩
      simp only [hstack, List.append_nil, List.replicate_succ']
    · rename_i hempty
      exact hkeep .smartPtr fun hnil => absurd (List.isEmpty_iff.mpr hnil) hempty

theorem peelTypeWrappers_of (stack : List RawWrapper) : (peelTypeWrappers stack).Of stack := by
  have hloop : ∀ (rest done : List RawWrapper) (p : PeeledType), p.Of done →
      (rest.foldl PeeledType.step p).Of (done ++ rest) := by
    intro rest
    induction rest with
    | nil => intro done p h; rw [List.append_nil]; exact h
    | cons w rest ih =>
      intro done p h
      rw [List.foldl_cons, List.append_cons]
      exact ih _ _ (h.step w)
  exact hloop stack [] ⟨[], 0⟩ ⟨rfl, nofun⟩

end DfDerive
