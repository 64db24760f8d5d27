/-
  DfDerive.Attrs.FieldProofs — a field carries at most one override.

  The items of all attributes of a field are one list. It is accepted exactly when it spells
  a disposition in range: decimal bounds Polars has, a prefix that is not empty. Otherwise
  its first two items say what is wrong (`fieldAttributes_exact`).
-/

import DfDerive.Attrs.Field

namespace DfDerive

open Lib

/-! ## One slot -/

/-- The error of a second override. -/
def secondOverride (field : String) (existing incoming : FieldAttr) : FieldAttrError :=
  if existing.key = incoming.key then .duplicateOverride field existing incoming
  else .overrideConflict field existing incoming

theorem readFieldItem_eq (field : String) :
    readFieldItem field = fillSlot FieldItem.read (secondOverride field) := by
  funext slot item
  rw [readFieldItem, fillSlot]
  cases item.read with
  | error e => rfl
  | ok incoming =>
    cases slot with
    | none => rfl
    | some existing =>
      simp only [ok_bind, setOverride, secondOverride]
      split <;> rfl

/-- Every field attribute is told by the first two items, over all attributes of the field. -/
theorem parseFieldDisposition_eq (field : String) (attrs : List FieldAttribute) :
    parseFieldDisposition field attrs =
      (match fieldItems attrs with
      | [] => .ok (.include .default)
      | [item] => do
        let attr ← item.read
        .ok attr.intoDisposition
      | item :: item' :: _ => do
        let existing ← item.read
        let incoming ← item'.read
        .error (secondOverride field existing incoming)) := by
  rw [parseFieldDisposition, readFieldItem_eq, foldlM_fillSlot]
  match fieldItems attrs with
  | [] => rfl
  | [item] =>
    simp only [bind_assoc]
    cases item.read <;> rfl
  | item :: item' :: rest =>
    simp only [bind_assoc]
    cases item.read with
    | error e => rfl
    | ok existing => cases item'.read <;> rfl

theorem parseFieldDisposition_ok {field : String} {attrs : List FieldAttribute} {d : FieldDisposition} :
    parseFieldDisposition field attrs = .ok d ↔
      (fieldItems attrs = [] ∧ d = .include .default) ∨
        ∃ item attr, fieldItems attrs = [item] ∧ item.read = .ok attr ∧ d = attr.intoDisposition := by
  rw [parseFieldDisposition, readFieldItem_eq, bind_eq_ok]
  constructor
  · rintro ⟨slot, hslot, hd⟩
    rcases foldlM_fillSlot_ok.mp hslot with ⟨hnil, rfl⟩ | ⟨item, attr, hitem, hread, rfl⟩
    · cases hd
      exact Or.inl ⟨hnil, rfl⟩
    · cases hd
      exact Or.inr ⟨item, attr, hitem, hread, rfl⟩
  · rintro (⟨hnil, rfl⟩ | ⟨item, attr, hitem, hread, rfl⟩)
    · exact ⟨none, foldlM_fillSlot_ok.mpr (Or.inl ⟨hnil, rfl⟩), rfl⟩
    · exact ⟨some attr, foldlM_fillSlot_ok.mpr (Or.inr ⟨item, attr, hitem, hread, rfl⟩), rfl⟩

/-! ## What can be asked for -/

/-- A precision Polars has, and a scale that fits it. -/
def DecimalBounds (precision scale : Nat) : Prop := 1 ≤ precision ∧ precision ≤ 38 ∧ scale ≤ precision

def FieldDisposition.InRange : FieldDisposition → Prop
  | .include (.leafOverride (.decimal precision scale)) => DecimalBounds precision scale
  | .include (.flatten (some name)) => name ≠ ""
  | _ => True

theorem parseTimeUnitAttr_value (unit : DateTimeUnit) :
    parseTimeUnitAttr (.literal (timeUnitAttrValue unit)) = .ok unit := by
  cases unit <;> rfl

theorem parseTimeUnitAttr_ok {value : StringValue} {unit : DateTimeUnit} (h : parseTimeUnitAttr value = .ok unit) :
    value = .literal (timeUnitAttrValue unit) := by
  obtain ⟨lit, hlit, hread⟩ := bind_eq_ok.mp h
  cases value with
  | malformed message => cases hlit
  | literal s =>
    cases hlit
    split at hread
    · rename_i hms
      cases hread
      rw [hms]
      rfl
    · split at hread
      · rename_i hus
        cases hread
        rw [hus]
        rfl
      · split at hread
        · rename_i hns
          cases hread
          rw [hns]
          rfl
        · cases hread

theorem FlattenItem.read_ok {sub : FlattenItem} {name : String} :
    sub.read = .ok name ↔ sub = ⟨"prefix", .literal name⟩ ∧ name ≠ "" := by
  obtain ⟨key, value⟩ := sub
  constructor
  · intro h
    rw [FlattenItem.read] at h
    split at h
    · rename_i hkey
      cases value with
      | malformed message => cases h
      | literal s =>
        simp only [StringValue.parse, ok_bind] at h
        split at h
        · cases h
        · rename_i hne
          cases h
          exact ⟨by rw [show key = "prefix" from hkey], hne⟩
    · cases h
  · rintro ⟨h, hne⟩
    cases h
    simp only [FlattenItem.read, if_true, StringValue.parse, ok_bind, if_neg hne]

theorem parseFlattenAttr_ok {subs : Option (List FlattenItem)} {name : Option String} :
    parseFlattenAttr subs = .ok name ↔
      (name = none ∧ (subs = none ∨ subs = some [])) ∨
        ∃ s, name = some s ∧ s ≠ "" ∧ subs = some [⟨"prefix", .literal s⟩] := by
  cases subs with
  | none => simp [parseFlattenAttr, eq_comm]
  | some subs =>
    rw [parseFlattenAttr, foldlM_fillSlot_ok]
    constructor
    · rintro (⟨rfl, rfl⟩ | ⟨sub, s, rfl, hread, rfl⟩)
      · exact Or.inl ⟨rfl, Or.inr rfl⟩
      · obtain ⟨rfl, hne⟩ := FlattenItem.read_ok.mp hread
        exact Or.inr ⟨s, rfl, hne, rfl⟩
    · rintro (⟨rfl, h | h⟩ | ⟨s, rfl, hne, h⟩)
      · cases h
      · cases h
        exact Or.inl ⟨rfl, rfl⟩
      · cases h
        exact Or.inr ⟨_, s, rfl, FlattenItem.read_ok.mpr ⟨rfl, hne⟩, rfl⟩

theorem readDecimalAttr_ok {subs : List DecimalItem} {bounds : Nat × Nat} :
    readDecimalAttr subs = .ok bounds ↔ parseDecimalAttr subs = .ok bounds := by
  rw [readDecimalAttr]
  cases parseDecimalAttr subs with
  | error e => exact ⟨nofun, nofun⟩
  | ok b =>
    constructor <;>
    · intro h
      cases h
      rfl

/-! ### Decimal keys -/

theorem parseU8_ok {e : DecimalAttrError} {value : DecimalItemValue} {n : Nat} :
    parseU8 e value = .ok n ↔ value = .integer n ∧ n < 256 := by
  cases value with
  | malformed message => simp [parseU8]
  | integer k =>
    rw [parseU8]
    split
    · rename_i hk
      constructor
      · intro h
        cases h
        exact ⟨rfl, hk⟩
      · rintro ⟨h, -⟩
        cases h
        rfl
    · rename_i hk
      refine ⟨nofun, ?_⟩
      rintro ⟨h, hn⟩
      cases h
      exact absurd hn hk

/-- A key is read when it was not there, and within its own bounds. -/
theorem DecimalKeys.read_ok {keys keys' : DecimalKeys} {sub : DecimalItem} :
    keys.read sub = .ok keys' ↔
      (∃ n, sub = ⟨"precision", .integer n⟩ ∧ 1 ≤ n ∧ n ≤ 38 ∧ keys.precision = none ∧ keys' = ⟨some n, keys.scale⟩) ∨
        ∃ n, sub = ⟨"scale", .integer n⟩ ∧ n ≤ 38 ∧ keys.scale = none ∧ keys' = ⟨keys.precision, some n⟩ := by
  obtain ⟨key, value⟩ := sub
  obtain ⟨precision, scale⟩ := keys
  constructor
  · intro h
    rw [DecimalKeys.read] at h
    split at h
    · rename_i hkey
      obtain ⟨n, hn, hread⟩ := bind_eq_ok.mp h
      obtain ⟨hvalue, -⟩ := parseU8_ok.mp hn
      simp only at hkey hvalue hread
      split at hread
      · cases hread
      · rename_i hrange
        obtain ⟨hlow, hhigh⟩ := not_not.mp hrange
        cases precision with
        | some existing => cases hread
        | none =>
          cases hread
          exact Or.inl ⟨n, by rw [hkey, hvalue], hlow, hhigh, rfl, rfl⟩
    · split at h
      · rename_i hkey
        obtain ⟨n, hn, hread⟩ := bind_eq_ok.mp h
        obtain ⟨hvalue, -⟩ := parseU8_ok.mp hn
        simp only at hkey hvalue hread
        split at hread
        · cases hread
        · rename_i hrange
          cases scale with
          | some existing => cases hread
          | none =>
            cases hread
            exact Or.inr ⟨n, by rw [hkey, hvalue], by omega, rfl, rfl⟩
      · cases h
  · rintro (⟨n, h, hlow, hhigh, hnone, rfl⟩ | ⟨n, h, hhigh, hnone, rfl⟩)
    · cases h
      cases hnone
      simp only [DecimalKeys.read, if_true, parseU8, if_pos (show n < 256 by omega), ok_bind,
        if_neg (not_not.mpr (⟨hlow, hhigh⟩ : 1 ≤ n ∧ n ≤ 38))]
    · cases h
      cases hnone
      simp only [DecimalKeys.read, if_neg (show ¬ "scale" = "precision" by decide), if_true, parseU8,
        if_pos (show n < 256 by omega), ok_bind, if_neg (show ¬ 38 < n by omega)]

/-- The two keys, in either order. -/
def decimalSpellings (precision scale : Nat) : List (List DecimalItem) :=
  [[⟨"precision", .integer precision⟩, ⟨"scale", .integer scale⟩],
    [⟨"scale", .integer scale⟩, ⟨"precision", .integer precision⟩]]

theorem DecimalKeys.full_reads (p s : Nat) (sub : DecimalItem) (keys : DecimalKeys) :
    DecimalKeys.read ⟨some p, some s⟩ sub ≠ .ok keys := by
  intro h
  rcases DecimalKeys.read_ok.mp h with ⟨n, -, -, -, hnone, -⟩ | ⟨n, -, -, hnone, -⟩ <;> cases hnone

theorem foldlM_read_full {subs : List DecimalItem} {p s precision scale : Nat}
    (h : subs.foldlM DecimalKeys.read ⟨some p, some s⟩ = .ok ⟨some precision, some scale⟩) :
    subs = [] ∧ p = precision ∧ s = scale := by
  cases subs with
  | nil =>
    cases h
    exact ⟨rfl, rfl, rfl⟩
  | cons sub subs =>
    rw [List.foldlM_cons] at h
    obtain ⟨keys, hkeys, -⟩ := bind_eq_ok.mp h
    exact absurd hkeys (DecimalKeys.full_reads p s sub keys)

theorem foldlM_read_spelled {subs : List DecimalItem} {precision scale : Nat}
    (h : subs.foldlM DecimalKeys.read ⟨none, none⟩ = .ok ⟨some precision, some scale⟩) :
    subs ∈ decimalSpellings precision scale := by
  match subs with
  | [] => cases h
  | [sub] =>
    rw [List.foldlM_cons] at h
    obtain ⟨keys, hkeys, h⟩ := bind_eq_ok.mp h
    cases h
    rcases DecimalKeys.read_ok.mp hkeys with ⟨n, -, -, -, -, heq⟩ | ⟨n, -, -, -, heq⟩ <;> cases heq
  | sub :: sub' :: rest =>
    rw [List.foldlM_cons] at h
    obtain ⟨keys, hkeys, h⟩ := bind_eq_ok.mp h
    rw [List.foldlM_cons] at h
    obtain ⟨keys', hkeys', h⟩ := bind_eq_ok.mp h
    rcases DecimalKeys.read_ok.mp hkeys with ⟨n, rfl, -, -, -, rfl⟩ | ⟨n, rfl, -, -, rfl⟩
    · rcases DecimalKeys.read_ok.mp hkeys' with ⟨m, -, -, -, hnone, -⟩ | ⟨m, rfl, -, -, rfl⟩
      · cases hnone
      · obtain ⟨rfl, rfl, rfl⟩ := foldlM_read_full h
        exact List.mem_cons_self
    · rcases DecimalKeys.read_ok.mp hkeys' with ⟨m, rfl, -, -, -, rfl⟩ | ⟨m, -, -, hnone, -⟩
      · obtain ⟨rfl, rfl, rfl⟩ := foldlM_read_full h
        exact List.mem_cons_of_mem _ List.mem_cons_self
      · cases hnone

theorem required_eq_ok {e : DecimalAttrError} {n : Option Nat} {k : Nat} : required e n = .ok k ↔ n = some k := by
  refine ⟨required_ok, ?_⟩
  rintro rfl
  rfl

theorem parseDecimalAttr_ok {subs : List DecimalItem} {precision scale : Nat} :
    parseDecimalAttr subs = .ok (precision, scale) ↔
      DecimalBounds precision scale ∧ subs ∈ decimalSpellings precision scale := by
  constructor
  · intro h
    refine ⟨parseDecimalAttr_bounds h, ?_⟩
    rw [parseDecimalAttr] at h
    obtain ⟨⟨p?, s?⟩, hkeys, h⟩ := bind_eq_ok.mp h
    obtain ⟨p, hp, h⟩ := bind_eq_ok.mp h
    obtain ⟨s, hs, h⟩ := bind_eq_ok.mp h
    split at h
    · cases h
    · cases h
      cases required_eq_ok.mp hp
      cases required_eq_ok.mp hs
      exact foldlM_read_spelled hkeys
  · rintro ⟨⟨hlow, hhigh, hscale⟩, hsubs⟩
    have hfold : subs.foldlM DecimalKeys.read ⟨none, none⟩ = .ok ⟨some precision, some scale⟩ := by
      rcases List.mem_pair.mp hsubs with rfl | rfl
      · rw [List.foldlM_cons, DecimalKeys.read_ok.mpr (Or.inl ⟨precision, rfl, hlow, hhigh, rfl, rfl⟩), ok_bind,
          List.foldlM_cons, DecimalKeys.read_ok.mpr (Or.inr ⟨scale, rfl, by omega, rfl, rfl⟩)]
        rfl
      · rw [List.foldlM_cons, DecimalKeys.read_ok.mpr (Or.inr ⟨scale, rfl, by omega, rfl, rfl⟩), ok_bind,
          List.foldlM_cons, DecimalKeys.read_ok.mpr (Or.inl ⟨precision, rfl, hlow, hhigh, rfl, rfl⟩)]
        rfl
    rw [parseDecimalAttr, hfold]
    simp only [ok_bind, required, if_neg (show ¬ precision < scale by omega)]

/-! ### Every spelling -/

/-- How a disposition may be written, over all attributes of a field. -/
def FieldDisposition.spellings : FieldDisposition → List (List FieldItem)
  | .skip => [[.skip]]
  | .include .default => [[]]
  | .include .binary => [[.asBinary]]
  | .include (.leafOverride .asStr) => [[.asStr]]
  | .include (.leafOverride .asString) => [[.asString]]
  | .include (.leafOverride (.decimal precision scale)) =>
    (decimalSpellings precision scale).map fun subs => [.decimal subs]
  | .include (.leafOverride (.timeUnit unit)) => [[.timeUnit (.literal (timeUnitAttrValue unit))]]
  | .include (.flatten none) => [[.flatten none], [.flatten (some [])]]
  | .include (.flatten (some name)) => [[.flatten (some [⟨"prefix", .literal name⟩])]]

theorem FieldItem.read_spelled {item : FieldItem} {attr : FieldAttr} (h : item.read = .ok attr) :
    attr.intoDisposition.InRange ∧ [item] ∈ attr.intoDisposition.spellings := by
  cases item with
  | skip | asString | asStr | asBinary =>
    cases h
    exact ⟨trivial, List.mem_cons_self⟩
  | decimal subs =>
    obtain ⟨⟨precision, scale⟩, hbounds, h⟩ := bind_eq_ok.mp h
    cases h
    obtain ⟨hrange, hsubs⟩ := parseDecimalAttr_ok.mp (readDecimalAttr_ok.mp hbounds)
    exact ⟨hrange, List.mem_map_of_mem hsubs⟩
  | timeUnit value =>
    obtain ⟨unit, hunit, h⟩ := bind_eq_ok.mp h
    cases h
    rw [parseTimeUnitAttr_ok hunit]
    exact ⟨trivial, List.mem_cons_self⟩
  | «flatten» subs =>
    obtain ⟨name, hname, h⟩ := bind_eq_ok.mp h
    cases h
    rcases parseFlattenAttr_ok.mp hname with ⟨rfl, rfl | rfl⟩ | ⟨s, rfl, hne, rfl⟩
    · exact ⟨trivial, List.mem_cons_self⟩
    · exact ⟨trivial, List.mem_cons_of_mem _ List.mem_cons_self⟩
    · exact ⟨hne, List.mem_cons_self⟩
  | other key => cases h
  | malformed message => cases h

/-- A disposition in range is read from each of its spellings. -/
theorem FieldDisposition.read_spelling {d : FieldDisposition} {items : List FieldItem} (hrange : d.InRange)
    (h : items ∈ d.spellings) :
    (items = [] ∧ d = .include .default) ∨ ∃ item attr, items = [item] ∧ item.read = .ok attr ∧ d = attr.intoDisposition := by
  match d with
  | .include .default => exact Or.inl ⟨List.mem_singleton.mp h, rfl⟩
  | .skip => exact Or.inr ⟨_, .skip, List.mem_singleton.mp h, rfl, rfl⟩
  | .include .binary => exact Or.inr ⟨_, .binary, List.mem_singleton.mp h, rfl, rfl⟩
  | .include (.leafOverride .asStr) => exact Or.inr ⟨_, .leaf .asStr, List.mem_singleton.mp h, rfl, rfl⟩
  | .include (.leafOverride .asString) => exact Or.inr ⟨_, .leaf .asString, List.mem_singleton.mp h, rfl, rfl⟩
  | .include (.leafOverride (.decimal precision scale)) =>
    obtain ⟨subs, hsubs, rfl⟩ := List.mem_map.mp h
    refine Or.inr ⟨_, .leaf (.decimal precision scale), rfl, ?_, rfl⟩
    rw [FieldItem.read, readDecimalAttr_ok.mpr (parseDecimalAttr_ok.mpr ⟨hrange, hsubs⟩)]
    rfl
  | .include (.leafOverride (.timeUnit unit)) =>
    refine Or.inr ⟨_, .leaf (.timeUnit unit), List.mem_singleton.mp h, ?_, rfl⟩
    rw [FieldItem.read, parseTimeUnitAttr_value]
    rfl
  | .include (.flatten none) =>
    rcases List.mem_pair.mp h with rfl | rfl
    · exact Or.inr ⟨_, .flatten none, rfl, rfl, rfl⟩
    · exact Or.inr ⟨_, .flatten none, rfl, rfl, rfl⟩
  | .include (.flatten (some name)) =>
    refine Or.inr ⟨_, .flatten (some name), List.mem_singleton.mp h, ?_, rfl⟩
    rw [FieldItem.read, parseFlattenAttr_ok.mpr (Or.inr ⟨name, rfl, hrange, rfl⟩)]
    rfl

theorem parseFieldDisposition_spelled (field : String) (attrs : List FieldAttribute) (d : FieldDisposition) :
    parseFieldDisposition field attrs = .ok d ↔ d.InRange ∧ fieldItems attrs ∈ d.spellings := by
  rw [parseFieldDisposition_ok]
  constructor
  · rintro (⟨hnil, rfl⟩ | ⟨item, attr, hitem, hread, rfl⟩)
    · rw [hnil]
      exact ⟨trivial, List.mem_cons_self⟩
    · rw [hitem]
      exact FieldItem.read_spelled hread
  · rintro ⟨hrange, hmem⟩
    exact FieldDisposition.read_spelling hrange hmem

/-! ### Every error -/

/-- Why the items of a field are refused: the first two decide. -/
inductive ItemsRefused (field : String) : List FieldItem → FieldAttrError → Prop where
  | first {item : FieldItem} {rest : List FieldItem} {e : FieldAttrError} (refused : item.read = .error e) :
      ItemsRefused field (item :: rest) e
  | second {item item' : FieldItem} {rest : List FieldItem} {existing : FieldAttr} {e : FieldAttrError}
      (read : item.read = .ok existing) (refused : item'.read = .error e) : ItemsRefused field (item :: item' :: rest) e
  | override {item item' : FieldItem} {rest : List FieldItem} {existing incoming : FieldAttr}
      (read : item.read = .ok existing) (read' : item'.read = .ok incoming) :
      ItemsRefused field (item :: item' :: rest) (secondOverride field existing incoming)

theorem parseFieldDisposition_refused (field : String) (attrs : List FieldAttribute) (e : FieldAttrError) :
    parseFieldDisposition field attrs = .error e ↔ ItemsRefused field (fieldItems attrs) e := by
  rw [parseFieldDisposition_eq]
  match fieldItems attrs with
  | [] =>
    constructor
    · intro h
      cases h
    · intro h
      cases h
  | [item] =>
    constructor
    · intro h
      cases hread : item.read with
      | error e' =>
        simp only [hread] at h
        cases h
        exact .first hread
      | ok attr =>
        simp only [hread] at h
        cases h
    · intro h
      cases h with
      | first hread =>
        simp only [hread, error_bind]
  | item :: item' :: rest =>
    constructor
    · intro h
      cases hread : item.read with
      | error e' =>
        simp only [hread] at h
        cases h
        exact .first hread
      | ok existing =>
        cases hread' : item'.read with
        | error e' =>
          simp only [hread, hread', ok_bind] at h
          cases h
          exact .second hread hread'
        | ok incoming =>
          simp only [hread, hread', ok_bind] at h
          cases h
          exact .override hread hread'
    · intro h
      cases h with
      | first hread =>
        simp only [hread, error_bind]
      | second hread hread' =>
        simp only [hread, hread', ok_bind, error_bind]
      | override hread hread' =>
        simp only [hread, hread', ok_bind]

/-- The attributes of a field ask for a disposition exactly when, taken together, they spell
    it and it is in range; otherwise the first two items over all of them say what is wrong. -/
theorem fieldAttributes_exact (field : String) (attrs : List FieldAttribute) :
    (∀ d, parseFieldDisposition field attrs = .ok d ↔ d.InRange ∧ fieldItems attrs ∈ d.spellings) ∧
      ∀ e, parseFieldDisposition field attrs = .error e ↔ ItemsRefused field (fieldItems attrs) e :=
  ⟨parseFieldDisposition_spelled field attrs, parseFieldDisposition_refused field attrs⟩

end DfDerive
