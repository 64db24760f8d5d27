/-
  DfDerive.Codegen.Leaf — row-wise primitive columns (`encoder/leaf.rs`, `encoder/option.rs`, `encoder/ctx.rs`).

  A column without `Vec` layers is filled by one push a row: a bare arm for a field that
  is always present, an option arm for one that may be absent. Deeper stacks of `Option`s
  and pointers are collapsed into a single optional reference before the option arm
  (`wrapOptionAccessChainPrimitive`).
-/

import DfDerive.Codegen.Vec

namespace DfDerive

open Lib

/-! ## Arms -/

inductive LeafArmKind where
  | bare
  | option (someReceiver : PrimitiveExprReceiver)
  deriving DecidableEq, Repr

/-- The locals of a row-wise column; each kind of leaf declares some of them. -/
structure LeafBufs where
  /-- `Vec<native>`, or the values of a view array. -/
  buf : List Prim
  /-- `Vec<Option<native>>` or `Vec<Option<&str>>`. -/
  options : List (Option Prim)
  bits : List Bool
  validity : List Bool
  rowIdx : Nat
  scratch : String
  deriving DecidableEq, Repr

def LeafBufs.new : LeafBufs := ⟨[], [], [], [], 0, ""⟩

/-- `decls` is given `items.len()`, `push` the row. -/
structure LeafArm where
  decls : Nat → LeafBufs
  push : LeafBufs → Operand → Run LeafBufs
  series : LeafBufs → Run Series

/-- `BaseCtx` and `LeafCtx`: the access expression of the row and the column's name. -/
structure LeafCtx where
  access : Operand → Run Operand
  name : String
  traits : Traits

/-- `mb_decl_filled` and `row_idx_decl` -/
def declsFilled (n : Nat) : LeafBufs := { LeafBufs.new with validity := mbDeclFilled n true }

def numericLeaf (ctx : LeafCtx) (kind : NumericKind) : LeafArmKind → LeafArm
  | .bare =>
    { decls := fun _ => .new
      push := fun s it => do
        let access ← ctx.access it
        let bareValue ← if kind.isNonzero || (numericInfoFor kind).widenFrom then numericStoredValue kind (← access.value)
          else nativeValue (← access.value)
        .ok { s with buf := s.buf ++ [bareValue] }
      series := fun s =>
        Series.withChunk ctx.name (numericInfoFor kind).dtype (.flat (numericInfoFor kind).native s.buf none) }
  | .option _ =>
    { decls := fun _ => .new
      push := fun s it => do
        match ← (← ctx.access it).matchOption with
        | some v =>
          let value ← numericStoredValue kind (← v.value)
          .ok { s with buf := s.buf ++ [value], validity := s.validity ++ [true] }
        | none =>
          .ok { s with buf := s.buf ++ [nativeDefault (numericInfoFor kind).native], validity := s.validity ++ [false] }
      series := fun s => do
        let arr ← flatArrayNew (numericInfoFor kind).native s.buf (bitmapIntoOption s.validity)
        Series.withChunk ctx.name (numericInfoFor kind).dtype arr }

/-- The arms over a view array. `bareValue` and `optionValue` are the pushed values, which
    may use the scratch buffer they return. -/
def viewLeaf (ctx : LeafCtx) (dtype : DataType) (empty : Prim) (bareValue : String → Operand → Run (Prim × String))
    (optionValue : String → Operand → Run (Option (Prim × String))) : LeafArmKind → LeafArm
  | .bare =>
    { decls := fun _ => .new
      push := fun s it => do
        let (value, scratch) ← bareValue s.scratch (← ctx.access it)
        .ok { s with buf := s.buf ++ [value], scratch }
      series := fun s => Series.withChunk ctx.name dtype (.flat dtype.physicalArrow s.buf none) }
  | .option _ =>
    { decls := declsFilled
      push := fun s it => do
        match ← optionValue s.scratch (← ctx.access it) with
        | some (value, scratch) => .ok { s with buf := s.buf ++ [value], scratch, rowIdx := s.rowIdx + 1 }
        | none =>
          let validity ← bitmapSet s.validity s.rowIdx false
          .ok { s with buf := s.buf ++ [empty], validity, rowIdx := s.rowIdx + 1 }
      series := fun s => do
        let arr ← flatArrayNew dtype.physicalArrow s.buf (bitmapIntoOption s.validity)
        Series.withChunk ctx.name dtype arr }

/-- `match &(access) { Some(v) => value(v), None => .. }` -/
def matchRef {α : Type} (access : Operand) (value : Operand → Run α) : Run (Option α) := do
  match ← (Operand.ref access).matchOption with
  | some v => do .ok (some (← value v))
  | none => .ok none

def stringLeaf (ctx : LeafCtx) : LeafArmKind → LeafArm :=
  let asStr (scratch : String) (v : Operand) : Run (Prim × String) := do .ok (.str (← stringAsStr (← v.value)), scratch)
  viewLeaf ctx .string (.str "") asStr fun scratch access => matchRef access (asStr scratch)

def binaryLeaf (ctx : LeafCtx) : LeafArmKind → LeafArm :=
  let bytesRef (scratch : String) (v : Operand) : Run (Prim × String) := do .ok (.bytes (← asRefBytes (← v.value)), scratch)
  viewLeaf ctx .binary (.bytes []) (fun scratch access => bytesRef scratch (.ref access))
    fun scratch access => matchRef access (bytesRef scratch)

def asStringLeaf (ctx : LeafCtx) : LeafArmKind → LeafArm :=
  let display (scratch : String) (v : Operand) : Run (Prim × String) := do
    let scratch ← displayInto ctx.traits scratch (← v.value)
    .ok (.str scratch, scratch)
  viewLeaf ctx .string (.str "") (fun scratch access => display scratch (.ref access))
    fun scratch access => matchRef access (display scratch)

/-- `stringy_value_expr` of kind `Bare`. -/
def stringyBare (tr : Traits) (base : StringyBase) (binding : Operand) : Run String := do
  asRefStr tr base (← (Operand.ref binding).value)

/-- `(binding).map(|v| v.as_str())` on a computed `Option` (kind `CollapsedOption`). -/
def stringyCollapsed (tr : Traits) (base : StringyBase) : Operand → Run (Option String)
  | .none => .ok none
  | .some v => do .ok (some (← asRefStr tr base (← v.value)))
  | _ => .error .illTyped

/-- `(binding).as_ref().map(|v| v.as_str())` (kind `OptionDeref`). -/
def stringyOptionDeref (tr : Traits) (base : StringyBase) (binding : Operand) : Run (Option String) := do
  stringyCollapsed tr base (← binding.asRef)

def asStrLeaf (ctx : LeafCtx) (base : StringyBase) : LeafArmKind → LeafArm :=
  viewLeaf ctx .string (.str "") (fun scratch access => do .ok (.str (← stringyBare ctx.traits base access), scratch))
    fun scratch access => do .ok ((← stringyOptionDeref ctx.traits base access).map fun text => (.str text, scratch))

def boolLeaf (ctx : LeafCtx) : LeafArmKind → LeafArm
  | .bare =>
    { decls := fun _ => .new
      push := fun s it => do
        let value ← boolOf (← ctx.access it)
        .ok { s with buf := s.buf ++ [.bool value] }
      series := fun s => .ok (.ofCells ctx.name .boolean (s.buf.map .val)) }
  | .option _ =>
    { decls := fun n => { declsFilled n with bits := mbDeclFilled n false }
      push := fun s it => do
        match ← (← ctx.access it).matchOption with
        | some v =>
          if ← boolOf v then
            let bits ← bitmapSet s.bits s.rowIdx true
            .ok { s with bits, rowIdx := s.rowIdx + 1 }
          else .ok { s with rowIdx := s.rowIdx + 1 }
        | none =>
          let validity ← bitmapSet s.validity s.rowIdx false
          .ok { s with validity, rowIdx := s.rowIdx + 1 }
      series := fun s => do
        let arr ← flatArrayNew .boolean (s.bits.map .bool) (bitmapIntoOption s.validity)
        Series.withChunk ctx.name .boolean arr }

def mappedPush (ctx : LeafCtx) (leaf : ScalarTransform) : LeafArmKind → LeafBufs → Operand → Run LeafBufs
  | .bare, s, it => do
    let access ← ctx.access it
    .ok { s with buf := s.buf ++ [← mapPrimitiveExpr ctx.traits access .place leaf] }
  | .option someReceiver, s, it => do
    let access ← ctx.access it
    .ok { s with options := s.options ++ [← matchRef access fun v => mapPrimitiveExpr ctx.traits v someReceiver leaf] }

def decimalLeaf (ctx : LeafCtx) (precision scale : Nat) (arm : LeafArmKind) : LeafArm :=
  { decls := fun _ => .new
    push := mappedPush ctx (.decimal precision scale) arm
    series := fun s =>
      match arm with
      | .bare => Series.withChunk ctx.name (.decimal precision scale) (.flat .int128 s.buf none)
      | .option _ => .ok (.ofCells ctx.name (.decimal precision scale) (s.options.map primCell)) }

/-- `Series::new(name, &buf)` of the native buffer, then `cast(&dtype)?`. -/
def mappedCastLeaf (ctx : LeafCtx) (leaf : ScalarTransform) (native : DataType) (arm : LeafArmKind) : LeafArm :=
  { decls := fun _ => .new
    push := mappedPush ctx leaf arm
    series := fun s =>
      let cells := match arm with
        | .bare => s.buf.map .val
        | .option _ => s.options.map primCell
      (Series.ofCells ctx.name native cells).cast leaf.dtype }

def datetimeLeaf (ctx : LeafCtx) (unit : DateTimeUnit) : LeafArmKind → LeafArm := mappedCastLeaf ctx (.dateTime unit) .int64

def naiveDatetimeLeaf (ctx : LeafCtx) (unit : DateTimeUnit) : LeafArmKind → LeafArm :=
  mappedCastLeaf ctx (.naiveDateTime unit) .int64

def naiveDateLeaf (ctx : LeafCtx) : LeafArmKind → LeafArm := mappedCastLeaf ctx .naiveDate .int32

def naiveTimeLeaf (ctx : LeafCtx) : LeafArmKind → LeafArm := mappedCastLeaf ctx .naiveTime .int64

def durationLeaf (ctx : LeafCtx) (unit : DateTimeUnit) (source : DurationSource) : LeafArmKind → LeafArm :=
  mappedCastLeaf ctx (.duration unit source) .int64

def buildLeaf (ctx : LeafCtx) (leaf : PrimitiveLeaf) (kind : LeafArmKind) : LeafArm :=
  match leaf with
  | .numeric numKind => numericLeaf ctx numKind kind
  | .string => stringLeaf ctx kind
  | .bool => boolLeaf ctx kind
  | .binary => binaryLeaf ctx kind
  | .dateTime unit => datetimeLeaf ctx unit kind
  | .naiveDateTime unit => naiveDatetimeLeaf ctx unit kind
  | .naiveDate => naiveDateLeaf ctx kind
  | .naiveTime => naiveTimeLeaf ctx kind
  | .duration unit source => durationLeaf ctx unit source kind
  | .decimal precision scale => decimalLeaf ctx precision scale kind
  | .asString => asStringLeaf ctx kind
  | .asStr base => asStrLeaf ctx base kind

/-! ## Access chains -/

/-- `wrap_option_access_chain_as_str`: the collapsed `Option<&str>` is pushed as it is. -/
def wrapOptionAccessChainAsStr (ctx : LeafCtx) (base : StringyBase) (access : AccessChain) : LeafArm :=
  { decls := fun _ => .new
    push := fun s it => do
      let origAccess ← ctx.access it
      let collapsedRef ← (accessChainToRef (.ok (.ref origAccess)) access).expr
      let value ← stringyCollapsed ctx.traits base collapsedRef
      .ok { s with options := s.options ++ [value.map .str] }
    series := fun s => .ok (.ofCells ctx.name .string (s.options.map primCell)) }

/-- The per-row local of `wrap_option_access_chain_primitive`. -/
def multiOptionLocal (ctx : LeafCtx) (leaf : PrimitiveLeaf) (access : AccessChain) (it : Operand) : Run Operand := do
  let origAccess ← ctx.access it
  let collapsedChain ← accessChainToOptionRef (.ok (.ref origAccess)) access
  if leaf.isCopy then collapsedChain.copied else .ok collapsedChain

def wrapOptionAccessChainPrimitive (ctx : LeafCtx) (leaf : PrimitiveLeaf) (access : AccessChain) : LeafArm :=
  match leaf with
  | .asStr base => wrapOptionAccessChainAsStr ctx base access
  | _ => buildLeaf { ctx with access := multiOptionLocal ctx leaf access } leaf (.option .refRef)

/-! ## Encoders -/

inductive Encoder where
  | leaf (arm : LeafArm)
  /-- The whole block, run over the items. -/
  | multi (columnar : List Operand → Run (List Series))

def buildEncoderWithOptionReceiver (ctx : LeafCtx) (leaf : PrimitiveLeaf) (wrapper : WrapperShape)
    (optionSomeReceiver : Option PrimitiveExprReceiver) : Encoder :=
  match wrapper with
  | .leaf .bare => .leaf (buildLeaf ctx leaf .bare)
  | .leaf (.optional optionLayers access) =>
    if optionLayers = 1 ∧ access.isSinglePlainOption then
      .leaf (buildLeaf ctx leaf (.option (optionSomeReceiver.getD .ref)))
    else .leaf (wrapOptionAccessChainPrimitive ctx leaf access)
  | .vec vecLayers => .multi (tryBuildVecEncoder ctx.traits ctx.name leaf vecLayers ctx.access)

def buildEncoder (ctx : LeafCtx) (leaf : PrimitiveLeaf) (wrapper : WrapperShape) : Encoder :=
  buildEncoderWithOptionReceiver ctx leaf wrapper none

end DfDerive
