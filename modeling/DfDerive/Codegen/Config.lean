/-
  DfDerive.Codegen.Config — the configuration of an expansion (`config.rs`, `external_paths.rs`).

  The traits are those of the overrides, a missing one rebased from the `ToDataFrame`
  override, or else those of the default runtime. Polars is reached through the private
  re-exports of a runtime, or through the dependencies of the deriving crate.
-/

import DfDerive.Attrs.Container

namespace DfDerive

/-- The traits of the expansion. -/
structure RuntimeTraitPaths where
  toDataframe : SynPath
  columnar : SynPath
  decimal128Encode : SynPath

structure ExternalPaths where
  polarsPrelude : SynPath
  polarsArrowRoot : SynPath

structure MacroConfig where
  traits : RuntimeTraitPaths
  externalPaths : ExternalPaths

/-- `#path::a::b` -/
def SynPath.join (path : SynPath) (idents : List String) : SynPath :=
  .mk path.leadingColon (path.segments ++ idents.map (.mk · .none))

namespace Crates

/-- `resolve_or_fallback`, the fallback being `::fallback`. -/
def resolveOrFallback (env : Crates) (name fallback : String) : SynPath :=
  match env.crateName name with
  | some (.name resolved) => .ofIdents true [resolved]
  | some .itself | none => .ofIdents true [fallback]

def directDependencyPaths (env : Crates) : ExternalPaths :=
  ⟨(env.resolveOrFallback "polars" "polars").join ["prelude"], env.resolveOrFallback "polars-arrow" "polars_arrow"⟩

def resolveDataframeModForCrate (env : Crates) (name libCrateName : String) : Option SynPath :=
  match env.crateName name with
  | some (.name resolved) => some (.ofIdents true [resolved, "dataframe"])
  | some .itself =>
    if env.cargoCrateName = some libCrateName then some (.ofIdents false ["crate", "dataframe"])
    else some (.ofIdents true [libCrateName, "dataframe"])
  | none => none

def resolveDefaultDataframeMod (env : Crates) : SynPath :=
  (((env.resolveDataframeModForCrate "df-derive" "df_derive").orElse fun _ =>
    env.resolveDataframeModForCrate "df-derive-core" "df_derive_core").orElse fun _ =>
      (env.resolveDataframeModForCrate "paft-utils" "paft_utils").orElse fun _ =>
        env.resolveDataframeModForCrate "paft" "paft").getD (.ofIdents false ["crate", "core", "dataframe"])

end Crates

def defaultRuntimePaths (dataframeMod : SynPath) : ExternalPaths :=
  ⟨dataframeMod.join ["__private", "polars", "prelude"], dataframeMod.join ["__private", "polars_arrow"]⟩

def runtimeTraitPath (dataframeMod : SynPath) (traitName : String) : SynPath := dataframeMod.join [traitName]

/-- A trait other than `ToDataFrame`: its override, the `ToDataFrame` override rebased, or the
    default runtime's. -/
def resolveSibling (defaultDfMod : SynPath) (own toDataframe : Option SynPath) (name : String) : SynPath :=
  match own, toDataframe with
  | some path, _ => path
  | none, some path => path.rebaseLastSegment name
  | none, none => runtimeTraitPath defaultDfMod name

/-- `build_macro_config` once the attributes are read. -/
def macroConfig (env : Crates) (attrs : ContainerAttrs) : MacroConfig :=
  let defaultDfMod := env.resolveDefaultDataframeMod
  let usesDefaultDataframeRuntime := attrs.toDataframe.isNone && attrs.columnar.isNone
  let toDataframe := attrs.toDataframe.getD (runtimeTraitPath defaultDfMod "ToDataFrame")
  let columnar := resolveSibling defaultDfMod attrs.columnar attrs.toDataframe "Columnar"
  let decimal128Encode := resolveSibling defaultDfMod attrs.decimal128Encode attrs.toDataframe "Decimal128Encode"
  let externalPaths :=
    match explicitBuiltinDefaultDataframeMod env attrs.toDataframe attrs.columnar with
    | some dataframeMod => defaultRuntimePaths dataframeMod
    | none => if usesDefaultDataframeRuntime then defaultRuntimePaths defaultDfMod else env.directDependencyPaths
  ⟨⟨toDataframe, columnar, decimal128Encode⟩, externalPaths⟩

def buildMacroConfig (env : Crates) (attributes : List ContainerAttr) : Except ContainerError MacroConfig := do
  .ok (macroConfig env (← parseContainerAttrs env attributes))

end DfDerive
