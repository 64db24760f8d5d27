/-
  DfDerive.Core.Dataframe — the runtime traits (`df-derive-core/src/lib.rs`).

  A row type is known by its `ToDataFrame` and `Columnar` implementations, kept together
  as an `Impl`; its rows are values. `Impl.toDataFrameVec` is the slice extension trait and
  `unitImpl` the implementation for `()`, a row type without columns.
-/

import DfDerive.Runtime.Value

namespace DfDerive

/-- The `ToDataFrame` and `Columnar` implementations of a row type. -/
structure Impl where
  /-- `core::any::type_name` -/
  typeName : String
  toDataframe : Value → Run DataFrame
  emptyDataframe : Run DataFrame
  schema : Run (List (String × DataType))
  columnarToDataframe : List Value → Run DataFrame
  columnarFromRefs : List Value → Run DataFrame

/-- `<[T] as ToDataFrameVec>::to_dataframe` -/
def Impl.toDataFrameVec (impl : Impl) (items : List Value) : Run DataFrame :=
  if items.isEmpty then impl.emptyDataframe else impl.columnarToDataframe items

def zeroColumnDataframeWithHeight (n : Nat) : Run DataFrame := do
  let dummy := (Series.newEmpty "_dummy" .null).extendNull n
  let df ← DataFrame.newInferHeight [dummy]
  df.dropInPlace "_dummy"

/-- `impl ToDataFrame for ()` and `impl Columnar for ()` -/
def unitImpl : Impl where
  typeName := "()"
  toDataframe _ := zeroColumnDataframeWithHeight 1
  emptyDataframe := DataFrame.newInferHeight []
  schema := .ok []
  columnarToDataframe items := zeroColumnDataframeWithHeight items.length
  columnarFromRefs items := zeroColumnDataframeWithHeight items.length

/-- A frame without columns keeps the height of the dropped dummy. -/
theorem zeroColumnDataframeWithHeight_eq (n : Nat) :
    ∃ df, zeroColumnDataframeWithHeight n = .ok df ∧ df.columns = [] ∧ df.height = n := by
  have hlen : ((Series.newEmpty "_dummy" .null).extendNull n).len = n := by simp [Series.len]
  refine ⟨⟨[], n, by simp, by simp⟩, ?_, rfl, rfl⟩
  have hinf : DataFrame.inferHeight [(Series.newEmpty "_dummy" .null).extendNull n] = n := by
    simp [DataFrame.inferHeight, hlen]
  have hh : ∀ s ∈ [(Series.newEmpty "_dummy" .null).extendNull n],
      s.len = DataFrame.inferHeight [(Series.newEmpty "_dummy" .null).extendNull n] := by
    simp [hinf, hlen]
  simp only [zeroColumnDataframeWithHeight, DataFrame.newInferHeight, dif_pos hh]
  rw [dif_pos (by simp)]
  simp [Lib.ok_bind, DataFrame.dropInPlace, hinf]

theorem newInferHeight_nil :
    ∃ df, DataFrame.newInferHeight [] = .ok df ∧ df.columns = [] ∧ df.height = 0 := by
  refine ⟨⟨[], 0, by simp, by simp⟩, ?_, rfl, rfl⟩
  rw [DataFrame.newInferHeight, dif_pos (by simp), dif_pos (by simp)]
  rfl

end DfDerive
