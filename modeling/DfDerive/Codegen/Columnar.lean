/-
  DfDerive.Codegen.Columnar — the generated impls (`schema.rs`, `schema_nested.rs`, `columnar_impl.rs`, `trait_impl.rs`).

  The schema and the empty frame are generated from the columns alone; a batch runs the
  encoders of the columns. All three reject duplicate names when a field is flattened, and a
  struct without columns keeps its height through a dummy column.
-/

import DfDerive.Codegen.ColumnEmit

namespace DfDerive

open Lib

/-! ## Schema -/

def columnFullDtype (leaf : PrimitiveLeaf) (vecDepth : Nat) : DataType := wrapListLayers leaf.dtype vecDepth

/-- `generate_schema_entries_for_struct`: one entry for every entry of `T::schema()`. -/
def generateSchemaEntriesForStruct (impl : Impl) (columnName : String) (policy : NestedNamePolicy) (listLayers : Nat) :
    Run (List (String × DataType)) := do
  .ok ((← impl.schema).map fun (innerName, innerDtype) =>
    (composeNestedName policy columnName innerName, wrapListLayers innerDtype listLayers))

/-- `nested_empty_series_row` -/
def nestedEmptySeriesRow (impl : Impl) (name : String) (policy : NestedNamePolicy) (listLayers : Nat) : Run (List Series) := do
  .ok ((← impl.schema).map fun (innerName, innerDtype) =>
    Series.newEmpty (composeNestedName policy name innerName) (wrapListLayers innerDtype listLayers))

def buildSchemaEntries (env : Env) (column : ColumnIR) : Run (List (String × DataType)) :=
  match column.leafSpec.route with
  | .nested nested =>
    generateSchemaEntriesForStruct (env.impl nested.ty) column.name column.nestedNamePolicy column.vecDepth
  | .primitive leaf => .ok [(column.name, columnFullDtype leaf column.vecDepth)]

def buildEmptySeries (env : Env) (column : ColumnIR) : Run (List Series) :=
  match column.leafSpec.route with
  | .nested nested => nestedEmptySeriesRow (env.impl nested.ty) column.name column.nestedNamePolicy column.vecDepth
  | .primitive leaf => .ok [Series.newEmpty column.name (columnFullDtype leaf column.vecDepth)]

/-! ## Unique names -/

def needsUniqueNameValidation (ir : StructIR) : Bool := ir.columns.any (·.nestedNamePolicy.requiresUniqueNameValidation)

/-- `validate_unique_column_names`, after the names in `seen`. -/
def validateUniqueColumnNames (typeName : String) : (seen names : List String) → Run Unit
  | _, [] => .ok ()
  | seen, name :: names =>
    if name ∈ seen then Run.derive (.duplicateColumn name typeName)
    else validateUniqueColumnNames typeName (name :: seen) names

/-- The validation is emitted for structs with a flattened field only. -/
def uniqueNameValidation (ir : StructIR) (typeName : String) (names : List String) : Run Unit :=
  if needsUniqueNameValidation ir then validateUniqueColumnNames typeName [] names else .ok ()

/-! ## `ToDataFrame` -/

/-- `fn schema()` -/
def schemaFn (env : Env) (ir : StructIR) (typeName : String) : Run (List (String × DataType)) :=
  if ir.columns.isEmpty then .ok []
  else do
    let fields ← ir.columns.mapM (buildSchemaEntries env)
    uniqueNameValidation ir typeName (fields.flatten.map (·.1))
    .ok fields.flatten

/-- `fn empty_dataframe()` -/
def emptyDataframeFn (env : Env) (ir : StructIR) (typeName : String) : Run DataFrame :=
  if ir.columns.isEmpty then DataFrame.newInferHeight []
  else do
    let allSeries ← ir.columns.mapM (buildEmptySeries env)
    uniqueNameValidation ir typeName (allSeries.flatten.map Series.name)
    DataFrame.newInferHeight allSeries.flatten

/-! ## `Columnar` -/

/-- One row of the shared loop: every column's push, in order. -/
def pushRowWise : List ColumnEmit → List LeafBufs → Operand → Run (List LeafBufs)
  | emit :: emits, s :: ss, it => do .ok ((← emit.push s it) :: (← pushRowWise emits ss it))
  | _, _, _ => .ok []

/-- Every column's builders, in order. -/
def runBuilders (items : List Operand) : List ColumnEmit → List LeafBufs → Run (List Series)
  | emit :: emits, s :: ss => do .ok ((← emit.builders items s) ++ (← runBuilders items emits ss))
  | _, _ => .ok []

/-- The declarations, the row loop and the builders of `prepare_columnar_parts`. -/
def columnarParts (emits : List ColumnEmit) (items : List Operand) : Run (List Series) := do
  let bufs ← items.foldlM (pushRowWise emits) (emits.map (·.decls items.length))
  runBuilders items emits bufs

/-- `columnar_method_body`, the same for owned and for borrowed items. -/
def columnarMethodBody (env : Env) (ir : StructIR) (typeName : String) (items : List Operand) : Run DataFrame :=
  if items.isEmpty then emptyDataframeFn env ir typeName
  else do
    let columns ← columnarParts (ir.columns.map (buildColumnEmit env)) items
    uniqueNameValidation ir typeName (columns.map Series.name)
    if columns.isEmpty then do
      let dummy := (Series.newEmpty "_dummy" .null).extendNull items.length
      let df ← DataFrame.newInferHeight [dummy]
      df.dropInPlace "_dummy"
    else DataFrame.newInferHeight columns

/-- `&[Self]` as the loop sees it. -/
def ownedItems (rows : List Value) : List Operand := rows.map fun v => .ref (.place v)

/-- `&[&Self]` as the loop sees it. -/
def borrowedItems (rows : List Value) : List Operand := rows.map fun v => .ref (.ref (.place v))

/-- The `ToDataFrame` and `Columnar` impls of a derived struct. -/
def generateImpl (env : Env) (ir : StructIR) (typeName : String) : Impl where
  typeName
  toDataframe row := columnarMethodBody env ir typeName (borrowedItems [row])
  emptyDataframe := emptyDataframeFn env ir typeName
  schema := schemaFn env ir typeName
  columnarToDataframe rows := columnarMethodBody env ir typeName (ownedItems rows)
  columnarFromRefs rows := columnarMethodBody env ir typeName (borrowedItems rows)

end DfDerive
