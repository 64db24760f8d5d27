/-
  DfDerive.Lower.Compose — wrappers of projected tuple elements (`lower/projection.rs`).

  The column of a tuple element walks the parent's wrappers and then the element's own.
  Below a parent without `Vec` the element keeps its shape, with one `Option` in front when
  the parent is optional; below a parent with `Vec` the two runs of layers are joined, and
  the parent's innermost `Option`s move to the element's outermost list or to the leaf.
-/

import DfDerive.Lower.Wrappers

namespace DfDerive

def prependOptionAccess (access : AccessChain) : AccessChain := ⟨.option :: access.steps⟩

def concatAccessChains (left right : AccessChain) : AccessChain := ⟨left.steps ++ right.steps⟩

def prependParentOptionAccess (parentAccess access : AccessChain) : AccessChain :=
  if 0 < parentAccess.optionLayers then prependOptionAccess access else access

/-- The element's outermost layer below `carried` more `Option`s. -/
def composeFirstLayer (carried : Nat) (access : AccessChain) (layers : NonEmpty VecLayerSpec) : NonEmpty VecLayerSpec :=
  ⟨⟨layers.first.optionLayersAbove + carried, access⟩, layers.rest⟩

def composeOptionWithElement : WrapperShape → WrapperShape
  | .leaf .bare => .leaf (.fromOptionAccess 1 (prependOptionAccess .empty))
  | .leaf (.optional optionLayers access) => .leaf (.fromOptionAccess (1 + optionLayers) (prependOptionAccess access))
  | .vec layers =>
    .vec { layers with layers := composeFirstLayer 1 (prependOptionAccess layers.layers.first.access) layers.layers }

def composeVecParentWithElement (parent : VecLayers) : WrapperShape → VecLayers
  | .vec element =>
    let access := prependParentOptionAccess parent.innerAccess element.layers.first.access
    let newLayers := composeFirstLayer parent.innerOptionLayers access element.layers
    ⟨parent.layers.extend newLayers.toList, element.innerOptionLayers, element.innerAccess⟩
  | .leaf .bare => ⟨parent.layers, parent.innerOptionLayers, parent.innerAccess⟩
  | .leaf (.optional optionLayers access) =>
    ⟨parent.layers, parent.innerOptionLayers + optionLayers, concatAccessChains parent.innerAccess access⟩

inductive ProjectedColumnContext where
  | static (wrapperShape : WrapperShape)
  | parentOption (wrapperShape : WrapperShape) (parentAccess : AccessChain)
  | parentVec (wrapperShape : VecLayers) (projectionLayer : Nat) (parentInnerAccess : AccessChain)

def composeParentWithElement (parent element : WrapperShape) : ProjectedColumnContext :=
  match parent with
  | .leaf .bare => .static element
  | .leaf (.optional _ access) => .parentOption (composeOptionWithElement element) access
  | .vec layers => .parentVec (composeVecParentWithElement layers element) layers.depth layers.innerAccess

end DfDerive
