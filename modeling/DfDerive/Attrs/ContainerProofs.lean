/-
  DfDerive.Attrs.ContainerProofs — a container gives each override at most once.

  The items of all attributes of a struct are one list. It is accepted exactly when every item
  gives an override, no key comes twice and the overrides agree on the built-in runtimes.
  Otherwise the first item that does not go with those before it says what is wrong, or the
  overrides together do (`containerAttributes_exact`). Paths are compared as they are written,
  without arguments; `DfDerive.Codegen.ConfigProofs` says what this misses.
-/

import DfDerive.Codegen.ConfigProofs
import DfDerive.Lib.Slot
import Mathlib.Data.List.Nodup

namespace DfDerive

open Lib

/-! ## Keys -/

/-- The keys of the overrides. -/
inductive OverrideKey where
  | trait
  | columnar
  | decimal128Encode
  deriving DecidableEq, Repr

namespace OverrideKey

def name : OverrideKey → String
  | trait => "trait"
  | columnar => "columnar"
  | decimal128Encode => "decimal128_encode"

/-- What a message calls the path. -/
def label : OverrideKey → String
  | trait => "trait"
  | columnar => "columnar trait"
  | decimal128Encode => "decimal128_encode trait"

def ofName (name : String) : Option OverrideKey :=
  if name = "trait" then some trait
  else if name = "columnar" then some columnar
  else if name = "decimal128_encode" then some decimal128Encode
  else none

theorem ofName_eq_some {s : String} {key : OverrideKey} : ofName s = some key ↔ s = key.name := by
  constructor
  · intro h
    unfold ofName at h
    split at h
    · cases h
      assumption
    · split at h
      · cases h
        assumption
      · split at h
        · cases h
          assumption
        · cases h
  · rintro rfl
    cases key <;> rfl

theorem name_inj {key key' : OverrideKey} (h : key.name = key'.name) : key = key' :=
  Option.some.inj ((ofName_eq_some.mpr rfl).symm.trans (ofName_eq_some.mpr h))

end OverrideKey

namespace ContainerAttrs

def get (slots : ContainerAttrs) : OverrideKey → Option SynPath
  | .trait => slots.toDataframe
  | .columnar => slots.columnar
  | .decimal128Encode => slots.decimal128Encode

def ofSlots (slots : OverrideKey → Option SynPath) : ContainerAttrs :=
  ⟨slots .trait, slots .columnar, slots .decimal128Encode⟩

theorem get_ofSlots (slots : OverrideKey → Option SynPath) : (ofSlots slots).get = slots := by
  funext key
  cases key <;> rfl

end ContainerAttrs

/-! ## Items -/

/-- The override an item gives. -/
def ContainerItem.read (item : ContainerItem) : Except ContainerError (OverrideKey × SynPath) :=
  match OverrideKey.ofName item.key with
  | none => .error .unsupportedKey
  | some key => do
    let path ← parseTraitPathAttr item.value key.label
    .ok (key, path)

theorem ContainerItem.read_ok {item : ContainerItem} {key : OverrideKey} {path : SynPath} :
    item.read = .ok (key, path) ↔ item = ⟨key.name, .path path⟩ := by
  obtain ⟨name, value⟩ := item
  constructor
  · intro h
    rw [ContainerItem.read] at h
    cases hkey : OverrideKey.ofName name with
    | none =>
      simp only [hkey] at h
      cases h
    | some key' =>
      simp only [hkey] at h
      obtain ⟨path', hpath, h⟩ := bind_eq_ok.mp h
      cases h
      cases value with
      | path p =>
        cases hpath
        rw [OverrideKey.ofName_eq_some.mp hkey]
      | malformed message => cases hpath
      | invalid message => cases hpath
  · intro h
    cases h
    simp only [ContainerItem.read, OverrideKey.ofName_eq_some.mpr rfl]
    rfl

/-- The loop over the items fills a slot for each key. -/
theorem parseContainerItem_eq (slots : OverrideKey → Option SynPath) (item : ContainerItem) :
    parseContainerItem (.ofSlots slots) item =
      (fillKeyed ContainerItem.read (fun key => .duplicateOverride key.name) slots item).map .ofSlots := by
  obtain ⟨name, value⟩ := item
  cases hkey : OverrideKey.ofName name with
  | none =>
    have hne : ∀ key : OverrideKey, name ≠ key.name := fun key h => by
      rw [OverrideKey.ofName_eq_some.mpr h] at hkey
      cases hkey
    have htrait : name ≠ "trait" := hne .trait
    have hcolumnar : name ≠ "columnar" := hne .columnar
    have hdecimal : name ≠ "decimal128_encode" := hne .decimal128Encode
    simp only [parseContainerItem, fillKeyed, ContainerItem.read, hkey, if_neg htrait, if_neg hcolumnar, if_neg hdecimal]
    rfl
  | some key =>
    obtain rfl := OverrideKey.ofName_eq_some.mp hkey
    cases hpath : parseTraitPathAttr value key.label with
    | error e =>
      simp only [fillKeyed, ContainerItem.read, hkey, hpath, error_bind]
      cases key <;> exact bind_eq_error.mpr (Or.inl hpath)
    | ok path =>
      simp only [fillKeyed, ContainerItem.read, hkey, hpath, ok_bind]
      cases hslot : slots key with
      | none =>
        have hset : setRuntimeOverride (slots key) key.name path = .ok (some path) := by
          rw [hslot]
          rfl
        cases key <;> exact bind_eq_ok.mpr ⟨path, hpath, bind_eq_ok.mpr ⟨some path, hset, rfl⟩⟩
      | some first =>
        have hset : setRuntimeOverride (slots key) key.name path = .error (.duplicateOverride key.name) := by
          rw [hslot]
          rfl
        cases key <;> exact bind_eq_error.mpr (Or.inr ⟨path, hpath, bind_eq_error.mpr (Or.inl hset)⟩)

theorem foldlM_parseContainerItem (items : List ContainerItem) : ∀ slots : OverrideKey → Option SynPath,
    items.foldlM parseContainerItem (.ofSlots slots) =
      (items.foldlM (fillKeyed ContainerItem.read fun key => .duplicateOverride key.name) slots).map .ofSlots := by
  induction items with
  | nil => exact fun _ => rfl
  | cons item items ih =>
    intro slots
    rw [List.foldlM_cons, List.foldlM_cons, parseContainerItem_eq]
    cases fillKeyed ContainerItem.read (fun key => ContainerError.duplicateOverride key.name) slots item with
    | error e => rfl
    | ok next => exact ih next

/-- The items of all `#[df_derive(..)]` attributes. -/
def containerItems (attrs : List ContainerAttr) : List ContainerItem :=
  (attrs.filter (·.path == "df_derive")).flatMap (·.items)

/-! ## What is read -/

/-- The overrides as the items give them, each once. -/
structure ContainerAttrs.SpelledBy (slots : ContainerAttrs) (items : List ContainerItem) : Prop where
  once : (items.map ContainerItem.key).Nodup
  gives : ∀ item ∈ items, ∃ key path, item = ⟨OverrideKey.name key, .path path⟩
  holds : ∀ key path, slots.get key = some path ↔ ⟨key.name, .path path⟩ ∈ items

/-- What is wrong with an item, after those that give `slots`. -/
inductive ItemWrong (slots : ContainerAttrs) : ContainerItem → ContainerError → Prop where
  | unsupported {item : ContainerItem} (unknown : ∀ key, item.key ≠ OverrideKey.name key) :
      ItemWrong slots item .unsupportedKey
  | malformed {key : OverrideKey} {message : String} : ItemWrong slots ⟨key.name, .malformed message⟩ (.malformed message)
  | invalid {key : OverrideKey} {message : String} :
      ItemWrong slots ⟨key.name, .invalid message⟩ (.invalidPath key.label message)
  | duplicate {key : OverrideKey} {first path : SynPath} (given : slots.get key = some first) :
      ItemWrong slots ⟨key.name, .path path⟩ (.duplicateOverride key.name)

theorem ContainerItem.read_error {item : ContainerItem} {e : ContainerError} (slots : ContainerAttrs)
    (h : item.read = .error e) : ItemWrong slots item e := by
  obtain ⟨name, value⟩ := item
  rw [ContainerItem.read] at h
  cases hkey : OverrideKey.ofName name with
  | none =>
    simp only [hkey] at h
    cases h
    refine .unsupported fun key hname => ?_
    rw [OverrideKey.ofName_eq_some.mpr hname] at hkey
    cases hkey
  | some key =>
    obtain rfl := OverrideKey.ofName_eq_some.mp hkey
    simp only [hkey] at h
    rcases bind_eq_error.mp h with h | ⟨path, -, h⟩
    · cases value with
      | malformed message =>
        cases h
        exact .malformed
      | invalid message =>
        cases h
        exact .invalid
      | path path => cases h
    · cases h

theorem itemWrong_iff {slots : ContainerAttrs} {item : ContainerItem} {e : ContainerError} : ItemWrong slots item e ↔
    fillKeyed ContainerItem.read (fun key => .duplicateOverride key.name) slots.get item = .error e := by
  rw [fillKeyed_error]
  constructor
  · intro h
    cases h with
    | unsupported unknown =>
      have hkey : OverrideKey.ofName item.key = none :=
        Option.eq_none_iff_forall_ne_some.mpr fun key h => unknown key (OverrideKey.ofName_eq_some.mp h)
      refine Or.inl ?_
      simp only [ContainerItem.read, hkey]
    | malformed =>
      refine Or.inl ?_
      simp only [ContainerItem.read, OverrideKey.ofName_eq_some.mpr rfl]
      rfl
    | invalid =>
      refine Or.inl ?_
      simp only [ContainerItem.read, OverrideKey.ofName_eq_some.mpr rfl]
      rfl
    | duplicate given => exact Or.inr ⟨_, _, _, ContainerItem.read_ok.mpr rfl, given, rfl⟩
  · rintro (h | ⟨key, path, first, hread, hgiven, rfl⟩)
    · exact ContainerItem.read_error slots h
    · rw [ContainerItem.read_ok.mp hread]
      exact .duplicate hgiven

/-- The keys of what is read are those of the items. -/
theorem containerEntries_keys {items : List ContainerItem} {entries : List (OverrideKey × SynPath)}
    (h : List.Forall₂ (fun item entry => item.read = .ok entry) items entries) :
    items.map ContainerItem.key = (entries.map Prod.fst).map OverrideKey.name := by
  rw [List.map_map, ← List.forall₂_eq_eq_eq, List.forall₂_map_left_iff, List.forall₂_map_right_iff]
  refine h.imp fun item entry hread => ?_
  rw [ContainerItem.read_ok.mp hread]
  rfl

theorem containerEntries_mem {items : List ContainerItem} {entries : List (OverrideKey × SynPath)}
    (h : List.Forall₂ (fun item entry => item.read = .ok entry) items entries) (key : OverrideKey) (path : SynPath) :
    (key, path) ∈ entries ↔ ⟨key.name, .path path⟩ ∈ items := by
  induction h with
  | nil => exact ⟨nofun, nofun⟩
  | @cons item entry items entries hread _ ih =>
    obtain ⟨key', path'⟩ := entry
    rw [ContainerItem.read_ok.mp hread, List.mem_cons, List.mem_cons, ih]
    refine or_congr_left ⟨?_, ?_⟩
    · intro h
      cases h
      rfl
    · intro h
      obtain ⟨hname, hpath⟩ := ContainerItem.mk.inj h
      cases hpath
      rw [OverrideKey.name_inj hname]

theorem containerEntries_gives {items : List ContainerItem} {entries : List (OverrideKey × SynPath)}
    (h : List.Forall₂ (fun item entry => item.read = .ok entry) items entries) :
    ∀ item ∈ items, ∃ key path, item = ⟨OverrideKey.name key, .path path⟩ := by
  induction h with
  | nil => exact nofun
  | @cons item entry items entries hread _ ih =>
    exact List.forall_mem_cons.mpr ⟨⟨entry.1, entry.2, ContainerItem.read_ok.mp hread⟩, ih⟩

theorem exists_containerEntries : ∀ {items : List ContainerItem},
    (∀ item ∈ items, ∃ key path, item = ⟨OverrideKey.name key, .path path⟩) →
      ∃ entries, List.Forall₂ (fun item entry => ContainerItem.read item = .ok entry) items entries
  | [], _ => ⟨[], .nil⟩
  | item :: items, h => by
    obtain ⟨⟨key, path, hitem⟩, h⟩ := List.forall_mem_cons.mp h
    obtain ⟨entries, hentries⟩ := exists_containerEntries h
    exact ⟨(key, path) :: entries, .cons (ContainerItem.read_ok.mpr hitem) hentries⟩

/-- The loop ends well when the items spell overrides. -/
theorem spelledBy_iff {items : List ContainerItem} {slots : ContainerAttrs} : slots.SpelledBy items ↔
    items.foldlM (fillKeyed ContainerItem.read fun key => .duplicateOverride key.name) (fun _ => none) = .ok slots.get := by
  rw [foldlM_fillKeyed_ok]
  constructor
  · rintro ⟨honce, hgives, hholds⟩
    obtain ⟨entries, hentries⟩ := exists_containerEntries hgives
    rw [containerEntries_keys hentries] at honce
    have hnodup : (entries.map Prod.fst).Nodup := List.Nodup.of_map _ honce
    exact ⟨entries, hentries, hnodup, fun key path => (hholds key path).trans (containerEntries_mem hentries key path).symm⟩
  · rintro ⟨entries, hentries, hnodup, hslots⟩
    refine ⟨?_, fun item hitem => ?_, fun key path => (hslots key path).trans (containerEntries_mem hentries key path)⟩
    · rw [containerEntries_keys hentries]
      exact List.Nodup.map (fun _ _ => OverrideKey.name_inj) hnodup
    · exact containerEntries_gives hentries item hitem

theorem readContainerItems_ok {attrs : List ContainerAttr} {slots : ContainerAttrs} :
    readContainerItems attrs = .ok slots ↔ slots.SpelledBy (containerItems attrs) := by
  have hloop := foldlM_parseContainerItem (containerItems attrs) fun _ => none
  rw [spelledBy_iff, show readContainerItems attrs = _ from hloop]
  constructor
  · intro h
    cases hfold : (containerItems attrs).foldlM
        (fillKeyed ContainerItem.read fun key => ContainerError.duplicateOverride key.name) fun _ => none with
    | error e =>
      rw [hfold] at h
      cases h
    | ok final =>
      rw [hfold] at h
      cases h
      rw [ContainerAttrs.get_ofSlots]
  · intro h
    rw [h]
    rfl

theorem readContainerItems_error {attrs : List ContainerAttr} {e : ContainerError} :
    readContainerItems attrs = .error e ↔ ∃ before item after slots, containerItems attrs = before ++ item :: after ∧
      slots.SpelledBy before ∧ ItemWrong slots item e := by
  have hloop := foldlM_parseContainerItem (containerItems attrs) fun _ => none
  have hfold : readContainerItems attrs = .error e ↔ (containerItems attrs).foldlM
      (fillKeyed ContainerItem.read fun key => ContainerError.duplicateOverride key.name) (fun _ => none) = .error e := by
    rw [show readContainerItems attrs = _ from hloop]
    cases (containerItems attrs).foldlM
      (fillKeyed ContainerItem.read fun key => ContainerError.duplicateOverride key.name) fun _ => none with
    | error e' => exact ⟨fun h => congrArg _ (Except.error.inj h), fun h => congrArg _ (Except.error.inj h)⟩
    | ok final => exact ⟨nofun, nofun⟩
  rw [hfold, foldlM_eq_error]
  simp only [spelledBy_iff, itemWrong_iff]
  constructor
  · rintro ⟨before, item, after, final, horder, hbefore, hitem⟩
    refine ⟨before, item, after, .ofSlots final, horder, ?_⟩
    rw [ContainerAttrs.get_ofSlots]
    exact ⟨hbefore, hitem⟩
  · rintro ⟨before, item, after, slots, horder, hbefore, hitem⟩
    exact ⟨before, item, after, slots.get, horder, hbefore, hitem⟩

/-! ## Overrides together -/

/-- Overrides that do not go together are refused as a mixed pair. -/
theorem mixedBuiltinRuntimeOverride_eq_some {env : Crates} {t c : Option SynPath} {e : ContainerError}
    (h : mixedBuiltinRuntimeOverride env t c = some e) : e = .mixedBuiltinRuntime := by
  have hside : ∀ {builtin : Bool} {tm cm : Option SynPath} {e : ContainerError},
      mixedSide builtin tm cm = some e → e = .mixedBuiltinRuntime := by
    intro builtin tm cm e h
    unfold mixedSide at h
    split at h
    · split at h
      · split at h
        · cases h
        · cases h
          rfl
      · cases h
        rfl
    · cases h
  obtain ⟨t, -, h⟩ := Option.bind_eq_some_iff.mp h
  obtain ⟨c, -, h⟩ := Option.bind_eq_some_iff.mp h
  simp only [Option.orElse_eq_or, Option.or_eq_some_iff] at h
  rcases h with h | ⟨-, h⟩
  · exact hside h
  · exact hside h

theorem checkContainerAttrs_eq_error {env : Crates} {slots : ContainerAttrs} {e : ContainerError} :
    checkContainerAttrs env slots = .error e ↔
      (e = .columnarWithoutTrait ∧ slots.toDataframe = none ∧ ∃ c, slots.columnar = some c) ∨
        (e = .mixedBuiltinRuntime ∧ ∃ t c, slots.toDataframe = some t ∧ slots.columnar = some c ∧
          ∃ m, env.Builtin m ∧ ¬(c.IsTraitOf m "Columnar" ↔ t.IsTraitOf m "ToDataFrame")) := by
  obtain ⟨toDataframe, columnar, decimal128Encode⟩ := slots
  cases columnar with
  | none => cases toDataframe <;> simp [checkContainerAttrs, mixedBuiltinRuntimeOverride]
  | some c =>
    cases toDataframe with
    | none => simp [checkContainerAttrs, eq_comm]
    | some t =>
      have hdiffer : (∃ m, env.Builtin m ∧ ¬(c.IsTraitOf m "Columnar" ↔ t.IsTraitOf m "ToDataFrame")) ↔
          mixedBuiltinRuntimeOverride env (some t) (some c) ≠ none := by
        rw [Ne, mixedBuiltinRuntimeOverride_eq_none]
        simp only [not_forall, exists_prop]
      cases hmixed : mixedBuiltinRuntimeOverride env (some t) (some c) with
      | none => simp [checkContainerAttrs, hmixed, hdiffer]
      | some e' =>
        obtain rfl := mixedBuiltinRuntimeOverride_eq_some hmixed
        simp [checkContainerAttrs, hmixed, hdiffer, eq_comm]

/-- Why a container is refused: at the first item that does not go with those before it, or
    for the overrides together. -/
inductive ContainerRefused (env : Crates) (items : List ContainerItem) : ContainerError → Prop where
  | item {before after : List ContainerItem} {item : ContainerItem} {slots : ContainerAttrs} {e : ContainerError}
      (order : items = before ++ item :: after) (earlier : slots.SpelledBy before) (wrong : ItemWrong slots item e) :
      ContainerRefused env items e
  | columnarAlone {slots : ContainerAttrs} {c : SynPath} (spelled : slots.SpelledBy items)
      (noTrait : slots.toDataframe = none) (columnar : slots.columnar = some c) :
      ContainerRefused env items .columnarWithoutTrait
  | mixed {slots : ContainerAttrs} {t c : SynPath} {m : List String} (spelled : slots.SpelledBy items)
      (trait : slots.toDataframe = some t) (columnar : slots.columnar = some c) (builtin : env.Builtin m)
      (differ : ¬(c.IsTraitOf m "Columnar" ↔ t.IsTraitOf m "ToDataFrame")) :
      ContainerRefused env items .mixedBuiltinRuntime

/-- The attributes of a container are accepted exactly when, taken together, they spell
    overrides that agree, each once; otherwise the first item that does not go with those
    before it decides, or the overrides together. -/
theorem containerAttributes_exact (env : Crates) (attrs : List ContainerAttr) :
    (∀ slots, parseContainerAttrs env attrs = .ok slots ↔ slots.SpelledBy (containerItems attrs) ∧ slots.Agree env) ∧
      ∀ e, parseContainerAttrs env attrs = .error e ↔ ContainerRefused env (containerItems attrs) e := by
  constructor
  · intro slots
    rw [parseContainerAttrs, bind_eq_ok]
    constructor
    · rintro ⟨read, hread, hcheck⟩
      obtain ⟨rfl, hagree⟩ := checkContainerAttrs_eq_ok.mp hcheck
      exact ⟨readContainerItems_ok.mp hread, hagree⟩
    · rintro ⟨hspelled, hagree⟩
      exact ⟨slots, readContainerItems_ok.mpr hspelled, checkContainerAttrs_eq_ok.mpr ⟨rfl, hagree⟩⟩
  · intro e
    rw [parseContainerAttrs, bind_eq_error, readContainerItems_error]
    simp only [readContainerItems_ok, checkContainerAttrs_eq_error]
    constructor
    · rintro (⟨before, item, after, slots, horder, hbefore, hwrong⟩ |
        ⟨slots, hspelled, ⟨rfl, hnone, c, hc⟩ | ⟨rfl, t, c, ht, hc, m, hm, hdiffer⟩⟩)
      · exact .item horder hbefore hwrong
      · exact .columnarAlone hspelled hnone hc
      · exact .mixed hspelled ht hc hm hdiffer
    · intro h
      cases h with
      | item horder hbefore hwrong => exact Or.inl ⟨_, _, _, _, horder, hbefore, hwrong⟩
      | columnarAlone hspelled hnone hc => exact Or.inr ⟨_, hspelled, Or.inl ⟨rfl, hnone, _, hc⟩⟩
      | mixed hspelled ht hc hm hdiffer => exact Or.inr ⟨_, hspelled, Or.inr ⟨rfl, _, _, ht, hc, _, hm, hdiffer⟩⟩

end DfDerive
