/-
  DfDerive.Attrs.Decimal — `decimal(precision = P, scale = S)` (`attrs/decimal.rs`).

  The keys are read in the order they are written. `parseDecimalAttr_bounds`: an accepted
  attribute has a precision between 1 and 38 and a scale that is no larger.
-/

import DfDerive.Lib.Runs

namespace DfDerive

open Lib

/-- What stands after a key of the attribute. -/
inductive DecimalItemValue where
  /-- `sub.value()` or the integer literal does not parse, with the parser's message. -/
  | malformed (message : String)
  | integer (n : Nat)
  deriving DecidableEq, Repr

structure DecimalItem where
  key : String
  value : DecimalItemValue
  deriving DecidableEq, Repr

inductive DecimalAttrError where
  | malformed (message : String)
  | precisionNotU8
  | precisionRange (value : Nat)
  | scaleNotU8
  | scaleRange (value : Nat)
  | duplicateKey (key : String) (existing incoming : Nat)
  | unknownKey
  | precisionMissing
  | scaleMissing
  | scaleExceedsPrecision (scale precision : Nat)
  deriving DecidableEq, Repr

def DecimalAttrError.message : DecimalAttrError → String
  | malformed message => message
  | precisionNotU8 => "decimal precision must fit in u8 (Polars requires 1..=38)"
  | precisionRange value => s!"decimal precision must satisfy 1 <= precision <= 38 (got {value})"
  | scaleNotU8 => "decimal scale must fit in u8 (max 38)"
  | scaleRange value => s!"decimal scale must be <= 38 (got {value})"
  | duplicateKey key existing incoming =>
    if existing = incoming then "`decimal(...)` declares duplicate `" ++ key ++ "` key; remove one"
    else "`decimal(...)` declares duplicate `" ++ key ++ "` keys with different values; " ++
      s!"first is `{existing}`, second is `{incoming}`; pick one"
  | unknownKey => "unknown key inside `decimal(...)`; expected `precision = N` or `scale = N`"
  | precisionMissing => "`decimal(...)` requires `precision = N`"
  | scaleMissing => "`decimal(...)` requires `scale = N`"
  | scaleExceedsPrecision scale precision => s!"decimal scale ({scale}) cannot exceed precision ({precision})"

/-- The main message first: a duplicate key also points at the first one. -/
def DecimalAttrError.messages : DecimalAttrError → List String
  | duplicateKey key existing incoming =>
    [(duplicateKey key existing incoming).message, "first `" ++ key ++ "` key declared here"]
  | e => [e.message]

abbrev DecimalAttr := Except DecimalAttrError

/-- `lit.base10_parse::<u8>()` -/
def parseU8 (e : DecimalAttrError) : DecimalItemValue → DecimalAttr Nat
  | .malformed message => .error (.malformed message)
  | .integer n => if n < 256 then .ok n else .error e

structure DecimalKeys where
  precision : Option Nat
  scale : Option Nat

/-- One call of the closure of `parse_nested_meta`. -/
def DecimalKeys.read (keys : DecimalKeys) (sub : DecimalItem) : DecimalAttr DecimalKeys :=
  if sub.key = "precision" then do
    let value ← parseU8 .precisionNotU8 sub.value
    if ¬ (1 ≤ value ∧ value ≤ 38) then .error (.precisionRange value)
    else match keys.precision with
      | some existing => .error (.duplicateKey "precision" existing value)
      | none => .ok { keys with precision := some value }
  else if sub.key = "scale" then do
    let value ← parseU8 .scaleNotU8 sub.value
    if 38 < value then .error (.scaleRange value)
    else match keys.scale with
      | some existing => .error (.duplicateKey "scale" existing value)
      | none => .ok { keys with scale := some value }
  else .error .unknownKey

def required (e : DecimalAttrError) : Option Nat → DecimalAttr Nat
  | some n => .ok n
  | none => .error e

/-- `parse_decimal_attr` -/
def parseDecimalAttr (subs : List DecimalItem) : DecimalAttr (Nat × Nat) := do
  let keys ← subs.foldlM DecimalKeys.read ⟨none, none⟩
  let p ← required .precisionMissing keys.precision
  let s ← required .scaleMissing keys.scale
  if p < s then .error (.scaleExceedsPrecision s p)
  else .ok (p, s)

/-! ## Accepted bounds -/

def DecimalKeys.InRange (keys : DecimalKeys) : Prop := ∀ p, keys.precision = some p → 1 ≤ p ∧ p ≤ 38

theorem DecimalKeys.read_inRange {keys keys' : DecimalKeys} {sub : DecimalItem} (h : keys.read sub = .ok keys')
    (hr : keys.InRange) : keys'.InRange := by
  rw [DecimalKeys.read] at h
  split at h
  · obtain ⟨value, -, h⟩ := bind_eq_ok.mp h
    split at h
    · cases h
    · rename_i hrange
      cases hp : keys.precision with
      | some existing =>
        rw [hp] at h
        cases h
      | none =>
        rw [hp] at h
        cases h
        intro p hp'
        cases hp'
        exact not_not.mp hrange
  · split at h
    · obtain ⟨value, -, h⟩ := bind_eq_ok.mp h
      split at h
      · cases h
      · cases hs : keys.scale with
        | some existing =>
          rw [hs] at h
          cases h
        | none =>
          rw [hs] at h
          cases h
          exact hr
    · cases h

theorem required_ok {e : DecimalAttrError} {n : Option Nat} {k : Nat} (h : required e n = .ok k) : n = some k := by
  cases n with
  | none => cases h
  | some m => cases h; rfl

/-- An accepted attribute is one Polars accepts. -/
theorem parseDecimalAttr_bounds {subs : List DecimalItem} {p s : Nat} (h : parseDecimalAttr subs = .ok (p, s)) :
    1 ≤ p ∧ p ≤ 38 ∧ s ≤ p := by
  rw [parseDecimalAttr] at h
  obtain ⟨keys, hkeys, h⟩ := bind_eq_ok.mp h
  obtain ⟨p', hp, h⟩ := bind_eq_ok.mp h
  obtain ⟨s', -, h⟩ := bind_eq_ok.mp h
  split at h
  · cases h
  · rename_i hle
    cases h
    have hinit : DecimalKeys.InRange ⟨none, none⟩ := fun p hp => by cases hp
    have hrange : keys.InRange :=
      Runs.foldlM_keeps _ _ _ (fun _ _ _ _ hr hok => DecimalKeys.read_inRange hok hr) hinit hkeys
    have := hrange p (required_ok hp)
    omega

end DfDerive
