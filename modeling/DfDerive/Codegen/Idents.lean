/-
  DfDerive.Codegen.Idents — the identifier registry (`encoder/idents/`).

  Every name the macro injects is a stem and up to two decimal indices, a column's or a
  layer's, each after an underscore. A `Family` is a stem; the registry's functions give
  the indices. `Ident.text` is what `format_ident!` renders, and no two names are rendered
  alike (`Ident.text_injective`): stems end in a letter and differ, and indices can be read
  back from what follows the stem.
-/

import DfDerive.Codegen.Support
import DfDerive.Lib.Scopes
import DfDerive.Lib.Separated
import DfDerive.Spec.Names

namespace DfDerive

open Lib

/-! ## Families -/

/-- The walks, each with identifiers of its own for the layers. -/
inductive LayerKind where
  | vec
  | nested
  | tuple
  deriving DecidableEq, Repr

/-- The fields of `LayerIdents`. -/
inductive LayerPart where
  | offsets
  | offsetsBuf
  | validityMb
  | validityBm
  | bind
  deriving DecidableEq, Repr

/-- `VEC_OUTER_SOME_PREFIX` and its like, the `pre` ones for the precount. -/
inductive OuterSomePrefix where
  | vec
  | nested
  | nestedPre
  | tuple
  | tuplePre
  deriving DecidableEq, Repr

/-- Names outside the registry: the parameter of the generated methods, and locals written
    into the quotations. -/
inductive PlainName where
  | items
  | s
  | arr
  | ca
  | column
  | numRows
  | dummy
  | df
  | fmtErr
  | mantissa
  deriving DecidableEq, Repr

inductive Family where
  -- `idents/layers.rs`
  | layer (kind : LayerKind) (part : LayerPart)
  | listArr (kind : LayerKind)
  | layerTotal (kind : LayerKind)
  | outerSome (pre : OuterSomePrefix)
  | projItem (pre : OuterSomePrefix)
  | proj (pre : OuterSomePrefix)
  -- `idents/nested.rs`
  | innerChunk
  | seedArrowDtype
  | nestedFlat
  | nestedPositions
  | nestedDf
  | nestedTake
  | nestedTotal
  | prefixedName
  | colName
  | colDtype
  | innerSeries
  | innerFull
  | innerCol
  | innerRech
  | maybe
  -- `idents/primitive.rs`
  | buf
  | validity
  | rowIdx
  | strScratch
  | fieldSeries
  | multiOptionLocal
  | leafValue
  | leafValueRaw
  | leafArr
  | totalLeaves
  | boolValues
  | boolValidity
  | boolInnerOffsets
  | listOffset
  | vecFlat
  | vecViewBuf
  | vecLeafIdx
  | bitmapBuilder
  | boolBareOffsetsBuf
  -- `idents/support.rs`
  | columns
  | populatorIter
  | fieldNamedSeries
  | schemaWrappedDtype
  | helper (h : Helper)
  | asRefStrAssertHelper
  | displayAssertHelper
  | nestedTraitsAssertHelper
  | decimalBackendAssertHelper
  | collapseOptionParam
  -- `idents/tuple.rs`
  | tupleProjParam
  | tupleNestedInnerV
  | plain (name : PlainName)
  deriving DecidableEq, Repr

namespace Family

/-- The prefixes without their last underscore, which stands before the layer. -/
def outerSomeStem : OuterSomePrefix → String
  | .vec => "__df_derive_some"
  | .nested => "__df_derive_n_some"
  | .nestedPre => "__df_derive_n_pre_some"
  | .tuple => "__df_derive_t_some"
  | .tuplePre => "__df_derive_t_pre_some"

def stem : Family → String
  | layer .vec .offsets => "__df_derive_layer_off"
  | layer .vec .validityMb => "__df_derive_layer_val"
  | layer .vec .bind => "__df_derive_layer_bind"
  | layer .vec .offsetsBuf => "__df_derive_layer_off_buf"
  | layer .vec .validityBm => "__df_derive_layer_val_bm"
  | layer .nested .offsets => "__df_derive_n_off"
  | layer .nested .offsetsBuf => "__df_derive_n_off_buf"
  | layer .nested .validityMb => "__df_derive_n_valmb"
  | layer .nested .validityBm => "__df_derive_n_valbm"
  | layer .nested .bind => "__df_derive_n_bind"
  | layer .tuple .offsets => "__df_derive_t_off"
  | layer .tuple .offsetsBuf => "__df_derive_t_off_buf"
  | layer .tuple .validityMb => "__df_derive_t_valmb"
  | layer .tuple .validityBm => "__df_derive_t_valbm"
  | layer .tuple .bind => "__df_derive_t_bind"
  | listArr .vec => "__df_derive_list_arr"
  | listArr .nested => "__df_derive_n_arr"
  | listArr .tuple => "__df_derive_t_arr"
  | layerTotal .vec => "__df_derive_total_layer"
  | layerTotal .nested => "__df_derive_n_total_layer"
  | layerTotal .tuple => "__df_derive_t_total"
  | outerSome pre => outerSomeStem pre
  | projItem .vec => "__df_derive_some_proj_item"
  | projItem .nested => "__df_derive_n_some_proj_item"
  | projItem .nestedPre => "__df_derive_n_pre_some_proj_item"
  | projItem .tuple => "__df_derive_t_some_proj_item"
  | projItem .tuplePre => "__df_derive_t_pre_some_proj_item"
  | proj .vec => "__df_derive_some_proj"
  | proj .nested => "__df_derive_n_some_proj"
  | proj .nestedPre => "__df_derive_n_pre_some_proj"
  | proj .tuple => "__df_derive_t_some_proj"
  | proj .tuplePre => "__df_derive_t_pre_some_proj"
  | innerChunk => "__df_derive_inner_chunk"
  | seedArrowDtype => "__df_derive_seed_dt"
  | nestedFlat => "__df_derive_gen_flat"
  | nestedPositions => "__df_derive_gen_pos"
  | nestedDf => "__df_derive_gen_df"
  | nestedTake => "__df_derive_gen_take"
  | nestedTotal => "__df_derive_gen_total"
  | prefixedName => "__df_derive_prefixed"
  | colName => "__df_derive_col_name"
  | colDtype => "__df_derive_dtype"
  | innerSeries => "__df_derive_inner"
  | innerFull => "__df_derive_inner_full"
  | innerCol => "__df_derive_inner_col"
  | innerRech => "__df_derive_inner_rech"
  | maybe => "__df_derive_maybe"
  | buf => "__df_derive_buf"
  | validity => "__df_derive_val"
  | rowIdx => "__df_derive_ri"
  | strScratch => "__df_derive_str"
  | fieldSeries => "__df_derive_field_series"
  | multiOptionLocal => "__df_derive_mo"
  | leafValue => "__df_derive_v"
  | leafValueRaw => "__df_derive_v_raw"
  | leafArr => "__df_derive_leaf_arr"
  | totalLeaves => "__df_derive_total_leaves"
  | boolValues => "__df_derive_values"
  | boolValidity => "__df_derive_validity"
  | boolInnerOffsets => "__df_derive_inner_offsets"
  | listOffset => "__df_derive_offset"
  | vecFlat => "__df_derive_flat"
  | vecViewBuf => "__df_derive_view_buf"
  | vecLeafIdx => "__df_derive_leaf_idx"
  | bitmapBuilder => "__df_derive_b"
  | boolBareOffsetsBuf => "__df_derive_offsets_buf"
  | columns => "__df_derive_columns"
  | populatorIter => "__df_derive_it"
  | fieldNamedSeries => "__df_derive_named"
  | schemaWrappedDtype => "__df_derive_wrapped"
  | helper .assembleHelper => "__df_derive_assemble_list_series_unchecked"
  | helper .listAssembly => "__DfDeriveListAssembly"
  | helper .validateNestedFrame => "__df_derive_validate_nested_frame"
  | helper .validateNestedColumnDtype => "__df_derive_validate_nested_column_dtype"
  | helper .validateUniqueColumnNames => "__df_derive_validate_unique_column_names"
  | asRefStrAssertHelper => "__df_derive_assert_as_ref_str"
  | displayAssertHelper => "__df_derive_assert_display"
  | nestedTraitsAssertHelper => "__df_derive_assert_nested_traits"
  | decimalBackendAssertHelper => "__df_derive_assert_decimal_backend"
  | collapseOptionParam => "__df_derive_o"
  | tupleProjParam => "__df_derive_t"
  | tupleNestedInnerV => "__df_derive_inner_v"
  | plain .items => "items"
  | plain .s => "s"
  | plain .arr => "arr"
  | plain .ca => "ca"
  | plain .column => "column"
  | plain .numRows => "num_rows"
  | plain .dummy => "dummy"
  | plain .df => "df"
  | plain .fmtErr => "__df_fmt_err"
  | plain .mantissa => "__df_m"

end Family

/-- `format_ident!("stem_{}_{}", ..)` -/
def formatIdent (stem : String) (indices : List Nat) : String := indices.foldl (fun text i => text ++ "_" ++ toString i) stem

structure Ident where
  family : Family
  indices : List Nat
  deriving DecidableEq, Repr

def Ident.text (i : Ident) : String := formatIdent i.family.stem i.indices

/-! ## The registry -/

namespace Idents

-- `idents/layers.rs`

abbrev vecLayerListArr (layer : Nat) : Ident := ⟨.listArr .vec, [layer]⟩

abbrev vecLayerTotal (layer : Nat) : Ident := ⟨.layerTotal .vec, [layer]⟩

abbrev nestedLayerTotal (layer : Nat) : Ident := ⟨.layerTotal .nested, [layer]⟩

abbrev nestedLayerListArr (layer : Nat) : Ident := ⟨.listArr .nested, [layer]⟩

abbrev tupleLayerTotal (fieldIdx layer : Nat) : Ident := ⟨.layerTotal .tuple, [fieldIdx, layer]⟩

abbrev tupleLayerListArr (layer : Nat) : Ident := ⟨.listArr .tuple, [layer]⟩

/-- `format_ident!("{}{}", outer_some_prefix, cur)` -/
abbrev outerSome (pre : OuterSomePrefix) (cur : Nat) : Ident := ⟨.outerSome pre, [cur]⟩

/-- `format_ident!("{}proj_item_{}", outer_some_prefix, cur)` -/
abbrev projItem (pre : OuterSomePrefix) (cur : Nat) : Ident := ⟨.projItem pre, [cur]⟩

/-- `format_ident!("{bind_prefix}proj_{cur}")` -/
abbrev proj (pre : OuterSomePrefix) (cur : Nat) : Ident := ⟨.proj pre, [cur]⟩

-- `idents/nested.rs`

abbrev nestedInnerChunk : Ident := ⟨.innerChunk, []⟩

abbrev seedArrowDtype : Ident := ⟨.seedArrowDtype, []⟩

abbrev nestedFlat (idx : Nat) : Ident := ⟨.nestedFlat, [idx]⟩

abbrev nestedPositions (idx : Nat) : Ident := ⟨.nestedPositions, [idx]⟩

abbrev nestedDf (idx : Nat) : Ident := ⟨.nestedDf, [idx]⟩

abbrev nestedTake (idx : Nat) : Ident := ⟨.nestedTake, [idx]⟩

abbrev nestedTotal (idx : Nat) : Ident := ⟨.nestedTotal, [idx]⟩

abbrev nestedPrefixedName : Ident := ⟨.prefixedName, []⟩

abbrev nestedColName : Ident := ⟨.colName, []⟩

abbrev nestedColDtype : Ident := ⟨.colDtype, []⟩

abbrev nestedInnerSeries : Ident := ⟨.innerSeries, []⟩

abbrev nestedInnerFull : Ident := ⟨.innerFull, []⟩

abbrev nestedInnerCol : Ident := ⟨.innerCol, []⟩

abbrev nestedInnerRech : Ident := ⟨.innerRech, []⟩

abbrev nestedMaybe : Ident := ⟨.maybe, []⟩

-- `idents/primitive.rs`

abbrev primitiveBuf (idx : Nat) : Ident := ⟨.buf, [idx]⟩

abbrev primitiveValidity (idx : Nat) : Ident := ⟨.validity, [idx]⟩

abbrev primitiveRowIdx (idx : Nat) : Ident := ⟨.rowIdx, [idx]⟩

abbrev primitiveStrScratch (idx : Nat) : Ident := ⟨.strScratch, [idx]⟩

abbrev vecFieldSeries (idx : Nat) : Ident := ⟨.fieldSeries, [idx]⟩

abbrev multiOptionLocal (idx : Nat) : Ident := ⟨.multiOptionLocal, [idx]⟩

abbrev leafValue : Ident := ⟨.leafValue, []⟩

abbrev leafValueRaw : Ident := ⟨.leafValueRaw, []⟩

abbrev leafArr : Ident := ⟨.leafArr, []⟩

abbrev totalLeaves : Ident := ⟨.totalLeaves, []⟩

abbrev boolValues : Ident := ⟨.boolValues, []⟩

abbrev boolValidity : Ident := ⟨.boolValidity, []⟩

abbrev boolInnerOffsets : Ident := ⟨.boolInnerOffsets, []⟩

abbrev listOffset : Ident := ⟨.listOffset, []⟩

abbrev vecFlat : Ident := ⟨.vecFlat, []⟩

abbrev vecViewBuf : Ident := ⟨.vecViewBuf, []⟩

abbrev vecLeafIdx : Ident := ⟨.vecLeafIdx, []⟩

abbrev bitmapBuilder : Ident := ⟨.bitmapBuilder, []⟩

abbrev boolBareOffsetsBuf : Ident := ⟨.boolBareOffsetsBuf, []⟩

abbrev boolBareListArr : Ident := ⟨.listArr .vec, []⟩

-- `idents/support.rs`, `idents/tuple.rs`

abbrev columns : Ident := ⟨.columns, []⟩

abbrev populatorIter : Ident := ⟨.populatorIter, []⟩

abbrev fieldNamedSeries : Ident := ⟨.fieldNamedSeries, []⟩

abbrev helper (h : Helper) : Ident := ⟨.helper h, []⟩

abbrev collapseOptionParam : Ident := ⟨.collapseOptionParam, []⟩

abbrev tupleProjParam : Ident := ⟨.tupleProjParam, []⟩

abbrev tupleNestedInnerV : Ident := ⟨.tupleNestedInnerV, []⟩

/-- A name written into a quotation. -/
abbrev plain (name : PlainName) : Ident := ⟨.plain name, []⟩

end Idents

inductive LayerNamespace where
  | vec
  | nested (fieldIdx : Nat)
  | tuple (fieldIdx : Nat)

namespace LayerNamespace

def kind : LayerNamespace → LayerKind
  | vec => .vec
  | nested _ => .nested
  | tuple _ => .tuple

/-- The layers of a plain `Vec` are numbered alone, the others within their field. -/
def indices (layer : Nat) : LayerNamespace → List Nat
  | vec => [layer]
  | nested fieldIdx => [fieldIdx, layer]
  | tuple fieldIdx => [fieldIdx, layer]

abbrev part (ns : LayerNamespace) (part : LayerPart) (layer : Nat) : Ident := ⟨.layer ns.kind part, ns.indices layer⟩

@[simp] theorem indices_inj {ns : LayerNamespace} {l m : Nat} : ns.indices l = ns.indices m ↔ l = m := by
  cases ns <;> simp [indices]

end LayerNamespace

structure LayerIdents where
  offsets : Ident
  offsetsBuf : Ident
  validityMb : Ident
  validityBm : Ident
  bind : Ident

def LayerIdents.new (ns : LayerNamespace) (layer : Nat) : LayerIdents where
  offsets := ns.part .offsets layer
  offsetsBuf := ns.part .offsetsBuf layer
  validityMb := ns.part .validityMb layer
  validityBm := ns.part .validityBm layer
  bind := ns.part .bind layer

section

variable (ns : LayerNamespace) (l : Nat)

@[simp] theorem LayerIdents.new_offsets : (LayerIdents.new ns l).offsets = ns.part .offsets l := rfl
@[simp] theorem LayerIdents.new_offsetsBuf : (LayerIdents.new ns l).offsetsBuf = ns.part .offsetsBuf l := rfl
@[simp] theorem LayerIdents.new_validityMb : (LayerIdents.new ns l).validityMb = ns.part .validityMb l := rfl
@[simp] theorem LayerIdents.new_validityBm : (LayerIdents.new ns l).validityBm = ns.part .validityBm l := rfl
@[simp] theorem LayerIdents.new_bind : (LayerIdents.new ns l).bind = ns.part .bind l := rfl

end

/-! ## Distinct renderings -/

namespace Family

def layers (kind : LayerKind) : List Family :=
  [.listArr kind, .layerTotal kind, .layer kind .offsets, .layer kind .offsetsBuf, .layer kind .validityMb,
    .layer kind .validityBm, .layer kind .bind]

def outerSomes (pre : OuterSomePrefix) : List Family := [.outerSome pre, .projItem pre, .proj pre]

def helpers : List Family :=
  [.helper .listAssembly, .helper .assembleHelper, .helper .validateNestedFrame, .helper .validateNestedColumnDtype,
    .helper .validateUniqueColumnNames]

def plains : List Family :=
  [.plain .items, .plain .s, .plain .arr, .plain .ca, .plain .column, .plain .numRows, .plain .dummy, .plain .df,
    .plain .fmtErr, .plain .mantissa]

/-- The families without parameters. -/
def singles : List Family :=
  [.innerChunk, .seedArrowDtype, .nestedFlat, .nestedPositions, .nestedDf, .nestedTake, .nestedTotal, .prefixedName,
    .colName, .colDtype, .innerSeries, .innerFull, .innerCol, .innerRech, .maybe, .buf, .validity, .rowIdx, .strScratch,
    .fieldSeries, .multiOptionLocal, .leafValue, .leafValueRaw, .leafArr, .totalLeaves, .boolValues, .boolValidity,
    .boolInnerOffsets, .listOffset, .vecFlat, .vecViewBuf, .vecLeafIdx, .bitmapBuilder, .boolBareOffsetsBuf, .columns,
    .populatorIter, .fieldNamedSeries, .schemaWrappedDtype, .asRefStrAssertHelper, .displayAssertHelper,
    .nestedTraitsAssertHelper, .decimalBackendAssertHelper, .collapseOptionParam, .tupleProjParam, .tupleNestedInnerV]

def all : List Family :=
  [layers .vec, layers .nested, layers .tuple, outerSomes .vec, outerSomes .nested, outerSomes .nestedPre, outerSomes .tuple,
    outerSomes .tuplePre, helpers, plains, singles].flatten

theorem mem_all (f : Family) : f ∈ all := by
  cases f with
  | layer kind part => cases kind <;> cases part <;> decide
  | listArr kind => cases kind <;> decide
  | layerTotal kind => cases kind <;> decide
  | outerSome pre => cases pre <;> decide
  | projItem pre => cases pre <;> decide
  | proj pre => cases pre <;> decide
  | helper h => cases h <;> decide
  | plain name => cases name <;> decide
  | _ => decide

/-- A stem as one number, byte by byte. -/
def stemCode (f : Family) : Nat := f.stem.toByteArray.data.toList.foldl (fun code b => code * 256 + b.toNat) 0

theorem stemCodes_nodup : (all.map stemCode).Nodup := by decide +kernel

theorem stem_injective : Function.Injective stem := fun f g h =>
  List.inj_on_of_nodup_map stemCodes_nodup (mem_all f) (mem_all g) (by rw [stemCode, stemCode, h])

/-- The letters of an index and of what stands before it. -/
def IndexLetter (c : Char) : Prop := c = '_' ∨ c.isDigit = true

instance : DecidablePred IndexLetter := fun _ => inferInstanceAs (Decidable (_ ∨ _))

theorem end_of_letters {letters : List Char} (h : letters.getLast?.any (fun c => decide (¬ IndexLetter c)) = true) :
    ∃ c ∈ (String.ofList letters).toList.getLast?, ¬ IndexLetter c := by
  obtain ⟨c, hlast, hc⟩ := (Option.any_eq_true _ _).mp h
  rw [String.toList_ofList]
  exact ⟨c, hlast, of_decide_eq_true hc⟩

/-- A stem is checked by its letters, which the text need not be decoded for. -/
theorem stem_end (f : Family) : ∃ c ∈ f.stem.toList.getLast?, ¬ IndexLetter c := by
  cases f with
  | layer kind part => cases kind <;> cases part <;> exact end_of_letters rfl
  | listArr kind => cases kind <;> exact end_of_letters rfl
  | layerTotal kind => cases kind <;> exact end_of_letters rfl
  | outerSome pre => cases pre <;> exact end_of_letters rfl
  | projItem pre => cases pre <;> exact end_of_letters rfl
  | proj pre => cases pre <;> exact end_of_letters rfl
  | helper h => cases h <;> exact end_of_letters rfl
  | plain name => cases name <;> exact end_of_letters rfl
  | _ => exact end_of_letters rfl

end Family

theorem formatIdent_toList (stem : String) (indices : List Nat) :
    (formatIdent stem indices).toList = stem.toList ++ (indices.map (Nat.toDigits 10)).flatMap ('_' :: ·) := by
  induction indices generalizing stem with
  | nil => simp [formatIdent]
  | cons i indices ih =>
    rw [formatIdent, List.foldl_cons]
    refine (ih _).trans ?_
    simp [String.toList_append]

theorem digits_indexLetter {n : Nat} {c : Char} (h : c ∈ Nat.toDigits 10 n) : c.isDigit = true :=
  Nat.isDigit_of_mem_toDigits (by decide) (by decide) h

theorem digits_no_underscore (n : Nat) : '_' ∉ Nat.toDigits 10 n := fun h => absurd (digits_indexLetter h) (by decide)

/-- The registry renders no two names alike. -/
theorem Ident.text_injective : Function.Injective Ident.text := by
  rintro ⟨f, is⟩ ⟨g, js⟩ h
  have hletters : ∀ is : List Nat, ∀ c ∈ (is.map (Nat.toDigits 10)).flatMap ('_' :: ·), Family.IndexLetter c := by
    intro is c hc
    obtain ⟨w, hw, hc⟩ := List.mem_flatMap.mp hc
    obtain ⟨n, -, rfl⟩ := List.mem_map.mp hw
    rcases List.mem_cons.mp hc with rfl | hc
    · exact Or.inl rfl
    · exact Or.inr (digits_indexLetter hc)
  have htext := congrArg String.toList h
  simp only [Ident.text, formatIdent_toList] at htext
  obtain ⟨hstem, hrest⟩ := append_injective_of_last (Family.stem_end f) (Family.stem_end g) (hletters is)
    (hletters js) htext
  have hwords : ∀ is : List Nat, ∀ w ∈ is.map (Nat.toDigits 10), '_' ∉ w := by
    intro is w hw
    obtain ⟨n, -, rfl⟩ := List.mem_map.mp hw
    exact digits_no_underscore n
  have hindices := flatMap_sep_injective (hwords is) (hwords js) hrest
  rw [Family.stem_injective (String.toList_injective hstem), List.map_injective_iff.mpr (fun _ _ => digits_injective) hindices]

example : (Ident.mk (.layer .nested .offsets) [1, 12]).text ≠ (Ident.mk (.layer .nested .offsets) [11, 2]).text := by decide

end DfDerive
