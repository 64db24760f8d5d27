/-
  DfDerive.Lower.ByName — the fields of a struct, by name.

  A tuple struct can be written with its fields under the names of their columns: it is
  accepted when the tuple struct is, and the same is found in its fields
  (`lowerFields_byName`). Named fields are accepted side by side (`lowerNamedFields_append`).
-/

import DfDerive.Lib.Runs
import DfDerive.Lower.Projection

namespace DfDerive

open Lib

/-- The fields of a tuple struct from the position `index` on. -/
def positionFields (index : Nat) : List FieldDecl → List (String × FieldDecl)
  | [] => []
  | field :: fields => (s!"field_{index}", field) :: positionFields (index + 1) fields

def Fields.byName : Fields → List (String × FieldDecl)
  | .named fields => fields
  | .unnamed fields => positionFields 0 fields
  | .unit => []

/-- The field in a struct whose fields have names. -/
def FieldIR.byName (field : FieldIR) : FieldIR := { field with fieldIndex := none }

theorem lowerField_byName {field : FieldDecl} {name : String} {fieldIndex : Option Nat} {lowered : Option FieldIR}
    (h : lowerField field name fieldIndex = .ok lowered) :
    lowerField field name none = .ok (lowered.map FieldIR.byName) := by
  obtain ⟨ty, disposition⟩ := field
  cases disposition with
  | skip =>
    cases h
    rfl
  | «include» conversion =>
    obtain ⟨analyzed, hanalyzed, h⟩ := bind_eq_ok.mp h
    obtain ⟨⟨⟩, hreject, h⟩ := bind_eq_ok.mp h
    refine bind_eq_ok.mpr ⟨analyzed, hanalyzed, bind_eq_ok.mpr ⟨(), hreject, ?_⟩⟩
    cases conversion with
    | «flatten» names =>
      obtain ⟨⟨⟩, hflat, h⟩ := bind_eq_ok.mp h
      obtain ⟨leafSpec, hleaf, hok⟩ := bind_eq_ok.mp h
      cases hok
      exact bind_eq_ok.mpr ⟨(), hflat, bind_eq_ok.mpr ⟨leafSpec, hleaf, rfl⟩⟩
    | binary =>
      obtain ⟨⟨⟩, hattr, h⟩ := bind_eq_ok.mp h
      obtain ⟨⟨leafSpec, trimmed⟩, hbinary, hok⟩ := bind_eq_ok.mp h
      cases hok
      exact bind_eq_ok.mpr ⟨(), hattr, bind_eq_ok.mpr ⟨(leafSpec, trimmed), hbinary, rfl⟩⟩
    | default | leafOverride _ =>
      obtain ⟨leafSpec, hleaf, hok⟩ := bind_eq_ok.mp h
      cases hok
      exact bind_eq_ok.mpr ⟨leafSpec, hleaf, rfl⟩

theorem lowerNamedFields_byName : ∀ {fields : List (String × FieldDecl)} {lowered : List FieldIR},
    lowerNamedFields fields = .ok lowered → lowerNamedFields fields = .ok (lowered.map FieldIR.byName)
  | [], _, h => by
    cases h
    rfl
  | (name, field) :: fields, _, h => by
    obtain ⟨first, hfirst, h⟩ := bind_eq_ok.mp h
    obtain ⟨rest, hrest, hok⟩ := bind_eq_ok.mp h
    cases hok
    rw [List.map_append, ← Option.toList_map]
    exact bind_eq_ok.mpr ⟨_, lowerField_byName hfirst, bind_eq_ok.mpr ⟨_, lowerNamedFields_byName hrest, rfl⟩⟩

theorem lowerUnnamedFields_byName : ∀ {fields : List FieldDecl} {index : Nat} {lowered : List FieldIR},
    lowerUnnamedFields index fields = .ok lowered →
      lowerNamedFields (positionFields index fields) = .ok (lowered.map FieldIR.byName)
  | [], _, _, h => by
    cases h
    rfl
  | field :: fields, index, _, h => by
    obtain ⟨first, hfirst, h⟩ := bind_eq_ok.mp h
    obtain ⟨rest, hrest, hok⟩ := bind_eq_ok.mp h
    cases hok
    rw [List.map_append, ← Option.toList_map]
    exact bind_eq_ok.mpr ⟨_, lowerField_byName hfirst, bind_eq_ok.mpr ⟨_, lowerUnnamedFields_byName hrest, rfl⟩⟩

/-- The fields of a struct are accepted by name. -/
theorem lowerFields_byName {fields : Fields} {lowered : List FieldIR} (h : lowerFields fields = .ok lowered) :
    lowerNamedFields fields.byName = .ok (lowered.map FieldIR.byName) := by
  cases fields with
  | named fields => exact lowerNamedFields_byName h
  | unnamed fields => exact lowerUnnamedFields_byName h
  | unit =>
    cases h
    rfl

theorem lowerNamedFields_append {after : List (String × FieldDecl)} : ∀ {before : List (String × FieldDecl)}
    {lowered : List FieldIR}, lowerNamedFields (before ++ after) = .ok lowered ↔
      ∃ first rest, lowerNamedFields before = .ok first ∧ lowerNamedFields after = .ok rest ∧ lowered = first ++ rest
  | [], lowered => by
    constructor
    · exact fun h => ⟨[], lowered, rfl, h, rfl⟩
    · rintro ⟨_, rest, ⟨⟩, h, rfl⟩
      exact h
  | (name, field) :: before, lowered => by
    constructor
    · intro h
      obtain ⟨head, hhead, h⟩ := bind_eq_ok.mp h
      obtain ⟨tail, htail, hok⟩ := bind_eq_ok.mp h
      cases hok
      obtain ⟨first, rest, hfirst, hrest, rfl⟩ := lowerNamedFields_append.mp htail
      exact ⟨head.toList ++ first, rest, bind_eq_ok.mpr ⟨head, hhead, bind_eq_ok.mpr ⟨first, hfirst, rfl⟩⟩, hrest,
        (List.append_assoc _ _ _).symm⟩
    · rintro ⟨_, rest, h, hrest, rfl⟩
      obtain ⟨head, hhead, h⟩ := bind_eq_ok.mp h
      obtain ⟨first, hfirst, hok⟩ := bind_eq_ok.mp h
      cases hok
      exact bind_eq_ok.mpr ⟨head, hhead, bind_eq_ok.mpr ⟨first ++ rest,
        lowerNamedFields_append.mpr ⟨first, rest, hfirst, hrest, rfl⟩, congrArg Except.ok (List.append_assoc _ _ _).symm⟩⟩

end DfDerive
