/-
  DfDerive.Ir.Wrappers — wrapper shapes (`ir/access.rs`, `ir/non_empty.rs`, `ir/wrappers.rs`).

  A field type is a stack of wrappers over a base. `RawWrapper` is one peeled step of that
  stack, outer to inner. Normalized, the stack is either a leaf with an access chain, or
  a non-empty run of `Vec` layers, each with the access chain above it, and the access
  chain between the innermost `Vec` and the leaf.
-/

import Mathlib.Data.List.Basic

namespace DfDerive

/-- A peeled wrapper of a field type (`type_analysis::RawWrapper`). -/
inductive RawWrapper where
  | option
  | vec
  | smartPtr
  deriving DecidableEq, Repr

inductive AccessStep where
  | option
  | smartPtr
  deriving DecidableEq, Repr

structure AccessChain where
  steps : List AccessStep
  deriving DecidableEq, Repr

namespace AccessChain

def empty : AccessChain := ⟨[]⟩

def optionLayers (c : AccessChain) : Nat := c.steps.countP (· == .option)

def isEmpty (c : AccessChain) : Bool := c.steps.isEmpty

def isSinglePlainOption (c : AccessChain) : Bool := c.steps == [.option]

def isOnlyOptions (c : AccessChain) : Bool := c.steps.all (· == .option)

end AccessChain

/-- A non-empty sequence with the first element encoded in the type. -/
structure NonEmpty (α : Type) where
  first : α
  rest : List α
  deriving DecidableEq, Repr

namespace NonEmpty

variable {α : Type}

def fromVec : List α → Option (NonEmpty α)
  | [] => none
  | a :: l => some ⟨a, l⟩

def toList (n : NonEmpty α) : List α := n.first :: n.rest

def len (n : NonEmpty α) : Nat := 1 + n.rest.length

def extend (n : NonEmpty α) (l : List α) : NonEmpty α := ⟨n.first, n.rest ++ l⟩

@[simp] theorem toList_extend (n : NonEmpty α) (l : List α) : (n.extend l).toList = n.toList ++ l := rfl
@[simp] theorem length_toList (n : NonEmpty α) : n.toList.length = n.len := by simp [toList, len, Nat.add_comm]
theorem len_pos (n : NonEmpty α) : 0 < n.len := by rw [len]; omega

end NonEmpty

inductive LeafShape where
  | bare
  | optional (optionLayers : Nat) (access : AccessChain)
  deriving DecidableEq, Repr

namespace LeafShape

/-- `NonZeroUsize::new(option_layers)` decides; the chain of a bare shape is dropped. -/
def fromOptionAccess (optionLayers : Nat) (access : AccessChain) : LeafShape :=
  if optionLayers = 0 then .bare else .optional optionLayers access

def optionLayers : LeafShape → Nat
  | bare => 0
  | optional n _ => n

end LeafShape

structure VecLayerSpec where
  optionLayersAbove : Nat
  access : AccessChain
  deriving DecidableEq, Repr

def VecLayerSpec.hasOuterValidity (l : VecLayerSpec) : Bool := decide (0 < l.optionLayersAbove)

structure VecLayers where
  layers : NonEmpty VecLayerSpec
  innerOptionLayers : Nat
  innerAccess : AccessChain
  deriving DecidableEq, Repr

namespace VecLayers

def depth (s : VecLayers) : Nat := s.layers.len

def anyOuterValidity (s : VecLayers) : Bool := s.layers.toList.any (·.hasOuterValidity)

def hasInnerOption (s : VecLayers) : Bool := decide (0 < s.innerOptionLayers)

end VecLayers

inductive WrapperShape where
  | leaf (shape : LeafShape)
  | vec (layers : VecLayers)
  deriving DecidableEq, Repr

def WrapperShape.vecDepth : WrapperShape → Nat
  | leaf _ => 0
  | vec v => v.depth

/-! ## The wrapper word a shape stands for -/

def AccessStep.word : AccessStep → RawWrapper
  | option => .option
  | smartPtr => .smartPtr

def AccessChain.word (c : AccessChain) : List RawWrapper := c.steps.map AccessStep.word

def VecLayerSpec.word (l : VecLayerSpec) : List RawWrapper := l.access.word ++ [.vec]

def VecLayers.word (s : VecLayers) : List RawWrapper :=
  s.layers.toList.flatMap VecLayerSpec.word ++ s.innerAccess.word

def LeafShape.word : LeafShape → List RawWrapper
  | bare => []
  | optional _ access => access.word

def WrapperShape.word : WrapperShape → List RawWrapper
  | leaf s => s.word
  | vec s => s.word

/-! ## The chain above the first boundary -/

def LeafShape.access : LeafShape → AccessChain
  | bare => .empty
  | optional _ access => access

def WrapperShape.firstAccess : WrapperShape → AccessChain
  | leaf s => s.access
  | vec s => s.layers.first.access

/-! ## Cached counts -/

/-- An optional shape's cached option count is the one of its chain. -/
def LeafShape.Counted : LeafShape → Prop
  | bare => True
  | optional n access => n = access.optionLayers ∧ 0 < n

/-- A layer's cached option count is the one of its chain. -/
def VecLayerSpec.Counted (l : VecLayerSpec) : Prop := l.optionLayersAbove = l.access.optionLayers

/-- A shape whose cached counts decide what its chains decide: whether there is an
    `Option` at each list boundary and at the leaf. -/
structure VecLayers.Nullable (s : VecLayers) : Prop where
  outer : ∀ l ∈ s.layers.toList, (0 < l.optionLayersAbove ↔ 0 < l.access.optionLayers)
  inner : 0 < s.innerOptionLayers ↔ 0 < s.innerAccess.optionLayers

/-- Either kind of shape, with counts that can be relied on. -/
def WrapperShape.Counted : WrapperShape → Prop
  | leaf s => s.Counted
  | vec s => s.Nullable

theorem LeafShape.word_access (s : LeafShape) : s.access.word = s.word := by cases s <;> rfl

@[simp] theorem AccessChain.word_empty : AccessChain.empty.word = [] := rfl

@[simp] theorem AccessChain.optionLayers_empty : AccessChain.empty.optionLayers = 0 := rfl

@[simp] theorem AccessChain.optionLayers_cons_option (l : List AccessStep) :
    AccessChain.optionLayers ⟨.option :: l⟩ = AccessChain.optionLayers ⟨l⟩ + 1 := by
  simp [AccessChain.optionLayers]

@[simp] theorem AccessChain.optionLayers_cons_smartPtr (l : List AccessStep) :
    AccessChain.optionLayers ⟨.smartPtr :: l⟩ = AccessChain.optionLayers ⟨l⟩ := by
  simp [AccessChain.optionLayers]

end DfDerive
