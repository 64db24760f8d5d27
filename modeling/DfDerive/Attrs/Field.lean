/-
  DfDerive.Attrs.Field — the attributes of a field (`attrs/field.rs`, `attrs/field_conflicts.rs`).

  `#[df_derive(..)]` on a field asks for one thing: to skip it, to flatten it, or one of the
  conversions. All such attributes of the field are read into one slot. Spans are left out:
  an error is its messages, the main one first.
-/

import DfDerive.Attrs.Decimal
import DfDerive.Lib.Slot
import DfDerive.Lower.Field

namespace DfDerive

/-! ## What an attribute asks for -/

inductive FieldAttr where
  | skip
  | binary
  | leaf (value : LeafOverride)
  | flatten (name : Option String)
  deriving DecidableEq, Repr

inductive FieldOverrideKey where
  | skip
  | asBinary
  | asStr
  | asString
  | decimal
  | timeUnit
  | flatten
  deriving DecidableEq, Repr

namespace FieldAttr

def key : FieldAttr → FieldOverrideKey
  | skip => .skip
  | binary => .asBinary
  | leaf .asStr => .asStr
  | leaf .asString => .asString
  | leaf (.decimal _ _) => .decimal
  | leaf (.timeUnit _) => .timeUnit
  | flatten _ => .flatten

def label (attr : FieldAttr) : String :=
  match attr.key with
  | .skip => "skip"
  | .asBinary => "as_binary"
  | .asStr => "as_str"
  | .asString => "as_string"
  | .decimal => "decimal(...)"
  | .timeUnit => "time_unit"
  | .flatten => "flatten"

def intoDisposition : FieldAttr → FieldDisposition
  | skip => .skip
  | binary => .include .binary
  | leaf value => .include (.leafOverride value)
  | flatten name => .include (.flatten name)

end FieldAttr

def timeUnitAttrValue : DateTimeUnit → String
  | .milliseconds => "ms"
  | .microseconds => "us"
  | .nanoseconds => "ns"

/-! ## Errors -/

inductive FieldAttrError where
  /-- Tokens that do not parse, with the parser's message. -/
  | malformed (message : String)
  | decimal (e : DecimalAttrError)
  | timeUnitValue (other : String)
  | flattenEmptyPrefix
  | flattenDuplicatePrefix (existing incoming : String)
  | flattenUnknownKey
  | unknownKey
  | duplicateOverride (field : String) (existing incoming : FieldAttr)
  | overrideConflict (field : String) (existing incoming : FieldAttr)
  deriving DecidableEq, Repr

/-- The message of `duplicate_override_conflict`. -/
def duplicateMessage (field : String) (existing incoming : FieldAttr) : String :=
  match existing, incoming with
  | .leaf (.decimal existingPrecision existingScale), .leaf (.decimal incomingPrecision incomingScale) =>
    if existingPrecision ≠ incomingPrecision ∨ existingScale ≠ incomingScale then
      s!"field `{field}` declares duplicate `decimal(...)` overrides with different values; first is " ++
        s!"`precision = {existingPrecision}, scale = {existingScale}`, second is " ++
        s!"`precision = {incomingPrecision}, scale = {incomingScale}`; pick one"
    else s!"field `{field}` declares duplicate `{incoming.label}` override; remove one"
  | .leaf (.timeUnit existingUnit), .leaf (.timeUnit incomingUnit) =>
    if existingUnit ≠ incomingUnit then
      s!"field `{field}` declares duplicate `time_unit` overrides with different values; first is " ++
        s!"`{timeUnitAttrValue existingUnit}`, second is `{timeUnitAttrValue incomingUnit}`; pick one"
    else s!"field `{field}` declares duplicate `{incoming.label}` override; remove one"
  | _, _ => s!"field `{field}` declares duplicate `{incoming.label}` override; remove one"

def conflictMessage (field : String) (existing incoming : FieldAttr) : String :=
  match existing.key, incoming.key with
  | .asStr, .asString | .asString, .asStr =>
    s!"field `{field}` has both `as_str` and `as_string`; pick one — `as_str` borrows via `AsRef<str>` without " ++
      "formatting, `as_string` formats via `Display` into a reused scratch buffer"
  | .decimal, .asStr | .decimal, .asString | .asStr, .decimal | .asString, .decimal =>
    s!"field `{field}` combines `decimal(...)` with `as_str`/`as_string`; `as_str`/`as_string` produce a String " ++
      "column, so the `decimal(...)` dtype override has no effect — drop one"
  | .timeUnit, .asStr | .timeUnit, .asString | .asStr, .timeUnit | .asString, .timeUnit =>
    s!"field `{field}` combines `time_unit = \"...\"` with `as_str`/`as_string`; the latter produces a String " ++
      "column, so the `time_unit` override has no effect — drop one"
  | .decimal, .timeUnit | .timeUnit, .decimal =>
    s!"field `{field}` combines `decimal(...)` with `time_unit = \"...\"`; pick one — `decimal(...)` applies to " ++
      "decimal backend candidates, `time_unit` only applies to `chrono::DateTime<Tz>`, `chrono::NaiveDateTime`, " ++
      "`std::time::Duration`, `core::time::Duration`, or `chrono::Duration`"
  | .skip, _ | _, .skip =>
    s!"field `{field}` combines `skip` with another field attribute; `skip` omits the field entirely, so conversion " ++
      "attributes have no effect; drop one"
  | .flatten, _ | _, .flatten =>
    s!"field `{field}` combines `flatten` with another field attribute; `flatten` splices a nested row schema into " ++
      "the parent, so conversion attributes and `skip` cannot apply at the same time; drop one"
  | .asBinary, _ | _, .asBinary =>
    s!"field `{field}` combines `as_binary` with another override; `as_binary` produces a Binary column over a " ++
      "`Vec<u8>` shape and is mutually exclusive with `as_str`, `as_string`, `decimal(...)`, and " ++
      "`time_unit = \"...\"` — drop one"
  | _, _ => s!"field `{field}` combines incompatible field attributes; drop one"

def FieldAttrError.messages : FieldAttrError → List String
  | malformed message => [message]
  | decimal e => e.messages
  | timeUnitValue other => ["invalid `time_unit` value `" ++ other ++ "`; expected one of \"ms\", \"us\", \"ns\""]
  | flattenEmptyPrefix => ["`flatten(prefix = \"...\")` requires a non-empty prefix"]
  | flattenDuplicatePrefix existing incoming =>
    [if existing = incoming then "`flatten(...)` declares duplicate `prefix` key; remove one"
      else "`flatten(...)` declares duplicate `prefix` keys with different values; first is `" ++ existing ++
        "`, second is `" ++ incoming ++ "`; pick one",
      "first `prefix` key declared here"]
  | flattenUnknownKey => ["unknown key inside `flatten(...)`; expected `prefix = \"...\"`"]
  | unknownKey =>
    ["unknown key in #[df_derive(...)] field attribute; expected `skip`, `flatten`, `as_str`, `as_string`, " ++
      "`as_binary`, `decimal(precision = N, scale = N)`, or `time_unit = \"ms\"|\"us\"|\"ns\"`"]
  | duplicateOverride field existing incoming =>
    [duplicateMessage field existing incoming, s!"first `{incoming.label}` override declared here"]
  | overrideConflict field existing incoming =>
    [conflictMessage field existing incoming, s!"first `{existing.label}` override declared here"]

/-! ## Reading -/

/-- What stands after a key that takes a string. -/
inductive StringValue where
  | malformed (message : String)
  | literal (value : String)
  deriving DecidableEq, Repr

structure FlattenItem where
  key : String
  value : StringValue
  deriving DecidableEq, Repr

/-- One item of an attribute, by its key. Where the list stops parsing its last item is
    `malformed`, and so is the last item of the lists inside it. -/
inductive FieldItem where
  | skip
  | asString
  | asStr
  | asBinary
  | decimal (subs : List DecimalItem)
  | timeUnit (value : StringValue)
  | flatten (subs : Option (List FlattenItem))
  | other (key : String)
  | malformed (message : String)
  deriving DecidableEq, Repr

/-- An attribute of a field, `path(items)`. -/
structure FieldAttribute where
  path : String
  items : List FieldItem

abbrev FieldAttrRun := Except FieldAttrError

def StringValue.parse : StringValue → FieldAttrRun String
  | malformed message => .error (.malformed message)
  | literal value => .ok value

def parseTimeUnitAttr (value : StringValue) : FieldAttrRun DateTimeUnit := do
  let lit ← value.parse
  if lit = "ms" then .ok .milliseconds
  else if lit = "us" then .ok .microseconds
  else if lit = "ns" then .ok .nanoseconds
  else .error (.timeUnitValue lit)

/-- The value of a `prefix` key. -/
def FlattenItem.read (sub : FlattenItem) : FieldAttrRun String :=
  if sub.key = "prefix" then do
    let value ← sub.value.parse
    if value = "" then .error .flattenEmptyPrefix else .ok value
  else .error .flattenUnknownKey

/-- Without parentheses the names are spliced as they are. -/
def parseFlattenAttr : Option (List FlattenItem) → FieldAttrRun (Option String)
  | none => .ok none
  | some subs => subs.foldlM (Lib.fillSlot FlattenItem.read .flattenDuplicatePrefix) none

def readDecimalAttr (subs : List DecimalItem) : FieldAttrRun (Nat × Nat) :=
  match parseDecimalAttr subs with
  | .ok bounds => .ok bounds
  | .error e => .error (.decimal e)

/-- The attribute an item is. -/
def FieldItem.read : FieldItem → FieldAttrRun FieldAttr
  | skip => .ok .skip
  | asString => .ok (.leaf .asString)
  | asStr => .ok (.leaf .asStr)
  | asBinary => .ok .binary
  | decimal subs => do
    let (precision, scale) ← readDecimalAttr subs
    .ok (.leaf (.decimal precision scale))
  | timeUnit value => do .ok (.leaf (.timeUnit (← parseTimeUnitAttr value)))
  | flatten subs => do .ok (.flatten (← parseFlattenAttr subs))
  | other _ => .error .unknownKey
  | malformed message => .error (.malformed message)

def setOverride (field : String) (slot : Option FieldAttr) (incoming : FieldAttr) : FieldAttrRun (Option FieldAttr) :=
  match slot with
  | none => .ok (some incoming)
  | some existing =>
    if existing.key = incoming.key then .error (.duplicateOverride field existing incoming)
    else .error (.overrideConflict field existing incoming)

/-- One call of the closure of `parse_nested_meta`. -/
def readFieldItem (field : String) (slot : Option FieldAttr) (item : FieldItem) : FieldAttrRun (Option FieldAttr) := do
  let incoming ← item.read
  setOverride field slot incoming

/-- The items of all `#[df_derive(..)]` attributes. -/
def fieldItems (attrs : List FieldAttribute) : List FieldItem :=
  (attrs.filter (·.path == "df_derive")).flatMap FieldAttribute.items

def parseFieldDisposition (field : String) (attrs : List FieldAttribute) : FieldAttrRun FieldDisposition := do
  match ← (fieldItems attrs).foldlM (readFieldItem field) none with
  | none => .ok (.include .default)
  | some attr => .ok attr.intoDisposition

end DfDerive
