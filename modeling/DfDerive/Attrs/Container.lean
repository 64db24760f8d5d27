/-
  DfDerive.Attrs.Container — the container attributes (`attrs/container.rs`).

  `#[df_derive(trait = "..", columnar = "..", decimal128_encode = "..")]` names the traits
  the expansion implements. A module is a built-in runtime when its path is the `dataframe`
  module of `df-derive` or `df-derive-core`, as Cargo resolves these packages; paths are
  compared segment by segment as written, and `::` in front is not looked at. Spans are left
  out: an error is its messages, the main one first.
-/

import DfDerive.Syn.Types
import DfDerive.Lib.Runs

namespace DfDerive

/-! ## The packages of the expansion -/

/-- `proc_macro_crate::FoundCrate` -/
inductive FoundCrate where
  | name (resolved : String)
  | itself
  deriving DecidableEq, Repr

/-- What the expansion can ask Cargo: the packages it finds, and `CARGO_CRATE_NAME`. -/
structure Crates where
  crateName : String → Option FoundCrate
  cargoCrateName : Option String

/-! ## Paths -/

/-- The name of a segment without arguments. -/
def PathSegment.name? : PathSegment → Option String
  | mk ident .none => some ident
  | _ => none

namespace SynPath

/-- `path_segment_names` -/
def segmentNames (path : SynPath) : Option (List String) := path.segments.mapM PathSegment.name?

/-- `rebase_last_segment`: the arguments of the last segment stay. -/
def rebaseLastSegment (path : SynPath) (name : String) : SynPath :=
  match path.segments.getLast? with
  | some last => .mk path.leadingColon (path.segments.dropLast ++ [.mk name last.arguments])
  | none => path

def traitModulePath (path : SynPath) (traitName : String) : Option SynPath :=
  match path.segments.getLast? with
  | some (.mk ident .none) =>
    if ident = traitName then
      let segments := path.segments.dropLast
      if segments.isEmpty then none else some (.mk path.leadingColon segments)
    else none
  | _ => none

/-- `path_segments_equal` -/
def segmentsEqual (left right : SynPath) : Bool :=
  match left.segmentNames, right.segmentNames with
  | some left, some right => left == right
  | _, _ => false

end SynPath

/-! ## The built-in runtimes -/

namespace Crates

def dataframeModSegmentsForCrate (env : Crates) (packageName libCrateName : String) : Option (List String) :=
  match env.crateName packageName with
  | some (.name resolved) => some [resolved, "dataframe"]
  | some .itself => some [if env.cargoCrateName = some libCrateName then "crate" else libCrateName, "dataframe"]
  | none => none

def builtinDefaultDataframeMods (env : Crates) : List (List String) :=
  (env.dataframeModSegmentsForCrate "df-derive" "df_derive").toList ++
    (env.dataframeModSegmentsForCrate "df-derive-core" "df_derive_core").toList

def isBuiltinDefaultDataframeMod (env : Crates) (path : SynPath) : Bool :=
  match path.segmentNames with
  | some segments => env.builtinDefaultDataframeMods.any (segments == ·)
  | none => false

end Crates

/-! ## The attributes -/

inductive ContainerError where
  /-- The tokens after a key do not parse, with the parser's message. -/
  | malformed (message : String)
  | invalidPath (label message : String)
  | duplicateOverride (key : String)
  | unsupportedKey
  | columnarWithoutTrait
  | mixedBuiltinRuntime
  deriving DecidableEq, Repr

def ContainerError.messages : ContainerError → List String
  | malformed message => [message]
  | invalidPath label message => [s!"invalid {label} path: {message}"]
  | duplicateOverride key =>
    [s!"container attribute declares duplicate `{key}` override; remove one", s!"first `{key}` override declared here"]
  | unsupportedKey => ["unsupported key in #[df_derive(...)] attribute"]
  | columnarWithoutTrait =>
    ["`columnar = \"...\"` requires `trait = \"...\"`; overriding only `Columnar` would generate mixed " ++
      "`ToDataFrame`/`Columnar` impls that do not satisfy either runtime's trait pair"]
  | mixedBuiltinRuntime =>
    ["`trait` and `columnar` overrides cannot mix the built-in dataframe runtime with a custom runtime; use the " ++
      "matching built-in `Columnar` path or provide a fully custom `trait` + `columnar` pair",
     "`trait` override involved in the mixed runtime pair"]

/-- What stands after a key: no string literal, a string that is no path, or a path. -/
inductive ContainerItemValue where
  | malformed (message : String)
  | invalid (message : String)
  | path (path : SynPath)

structure ContainerItem where
  key : String
  value : ContainerItemValue

/-- An attribute of the container, `path(items)`. -/
structure ContainerAttr where
  path : String
  items : List ContainerItem

structure ContainerAttrs where
  toDataframe : Option SynPath
  columnar : Option SynPath
  decimal128Encode : Option SynPath

def parseTraitPathAttr (value : ContainerItemValue) (label : String) : Except ContainerError SynPath :=
  match value with
  | .malformed message => .error (.malformed message)
  | .invalid message => .error (.invalidPath label message)
  | .path path => .ok path

def setRuntimeOverride (slot : Option SynPath) (key : String) (path : SynPath) : Except ContainerError (Option SynPath) :=
  match slot with
  | some _ => .error (.duplicateOverride key)
  | none => .ok (some path)

def parseContainerItem (slots : ContainerAttrs) (item : ContainerItem) : Except ContainerError ContainerAttrs :=
  if item.key = "trait" then do
    let path ← parseTraitPathAttr item.value "trait"
    .ok { slots with toDataframe := ← setRuntimeOverride slots.toDataframe "trait" path }
  else if item.key = "columnar" then do
    let path ← parseTraitPathAttr item.value "columnar trait"
    .ok { slots with columnar := ← setRuntimeOverride slots.columnar "columnar" path }
  else if item.key = "decimal128_encode" then do
    let path ← parseTraitPathAttr item.value "decimal128_encode trait"
    .ok { slots with decimal128Encode := ← setRuntimeOverride slots.decimal128Encode "decimal128_encode" path }
  else .error .unsupportedKey

/-- The checks of `mixed_builtin_runtime_override` on one side: `builtin` says that side is
    built in. -/
def mixedSide (builtin : Bool) (toDfModule columnarModule : Option SynPath) : Option ContainerError :=
  if builtin then
    match toDfModule, columnarModule with
    | some toDfModule, some columnarModule =>
      if toDfModule.segmentsEqual columnarModule then none else some .mixedBuiltinRuntime
    | _, _ => some .mixedBuiltinRuntime
  else none

def mixedBuiltinRuntimeOverride (env : Crates) (toDfTraitPath columnarTraitPath : Option SynPath) : Option ContainerError := do
  let toDfTraitPath ← toDfTraitPath
  let columnarTraitPath ← columnarTraitPath
  let toDfModule := toDfTraitPath.traitModulePath "ToDataFrame"
  let columnarModule := columnarTraitPath.traitModulePath "Columnar"
  (mixedSide (toDfModule.any env.isBuiltinDefaultDataframeMod) toDfModule columnarModule).orElse fun _ =>
    mixedSide (columnarModule.any env.isBuiltinDefaultDataframeMod) toDfModule columnarModule

def explicitBuiltinDefaultDataframeMod (env : Crates) (toDfTraitPath columnarTraitPath : Option SynPath) : Option SynPath := do
  let toDfModule ← (← toDfTraitPath).traitModulePath "ToDataFrame"
  if !env.isBuiltinDefaultDataframeMod toDfModule then none
  else
    match columnarTraitPath with
    | some columnar => do
      let columnarModule ← columnar.traitModulePath "Columnar"
      if !toDfModule.segmentsEqual columnarModule then none else some toDfModule
    | none => some toDfModule

/-- The overrides as written, over all `#[df_derive(..)]` attributes. -/
def readContainerItems (attrs : List ContainerAttr) : Except ContainerError ContainerAttrs :=
  ((attrs.filter (·.path == "df_derive")).flatMap (·.items)).foldlM parseContainerItem ⟨none, none, none⟩

def checkContainerAttrs (env : Crates) (slots : ContainerAttrs) : Except ContainerError ContainerAttrs :=
  match slots.columnar, slots.toDataframe with
  | some _, none => .error .columnarWithoutTrait
  | columnar, toDataframe =>
    match mixedBuiltinRuntimeOverride env toDataframe columnar with
    | some err => .error err
    | none => .ok slots

def parseContainerAttrs (env : Crates) (attrs : List ContainerAttr) : Except ContainerError ContainerAttrs :=
  readContainerItems attrs >>= checkContainerAttrs env

end DfDerive
