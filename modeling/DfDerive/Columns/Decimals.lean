/-
  DfDerive.Columns.Decimals — columns of `rust_decimal::Decimal` leaves.

  `mapDecimal_iff`: a decimal is converted to `m` exactly when `m` is its half-even rounding at
  the scale of the column and has at most as many digits as its precision.
  `decimal_columns` says so of every way to a decimal leaf: the verdict does not depend on it.
-/

import DfDerive.Attrs.Decimal
import DfDerive.Columns.Alone
import DfDerive.Core.DecimalProofs
import DfDerive.Derived.Batches

namespace DfDerive

open Lib

namespace RustDecimal

variable (d : RustDecimal)

def toValue : Value := .scalar (.decimal d.mantissa d.scale)

/-- `m` is the mantissa of the decimal in a column of this precision and scale. -/
def HasMantissa (precision scale : Nat) (m : Int) : Prop :=
  RoundsHalfEven (d.value * 10 ^ scale) m ∧ m.natAbs < 10 ^ precision

/-- The generated conversion, operator by operator. -/
def convert (precision scale : Nat) : Arith (Run Prim) := do
  match ← d.tryToI128Mantissa scale with
  | some m =>
    if (← u128Pow 10 precision) ≤ m.natAbs then return Run.derive (.decimalPrecision m precision scale)
    else return .ok (.int m)
  | none => return Run.derive (.decimalRescale scale)

theorem convert_eq (tr : Traits) {precision scale : Nat} (hp : precision ≤ 38) :
    d.convert precision scale = .ok (mapDecimal tr precision scale d.toValue) := by
  have hpow : u128Pow 10 precision = .ok (10 ^ precision) :=
    if_pos (lt_of_le_of_lt (ten_pow_le hp) (by decide))
  rw [convert, d.tryToI128Mantissa_eq, ok_bind, mapDecimal, toValue, DfDerive.tryToI128Mantissa]
  cases rustDecimalMantissa d.mantissa d.scale scale with
  | none => rfl
  | some m =>
    simp only [hpow, ok_bind]
    split <;> rfl

/-- The encoder answers `None` only for a decimal past the digits of the column. -/
theorem hasMantissa_encoded {precision scale : Nat} {m : Int} (hp : precision ≤ 38) (hs : scale ≤ precision)
    (h : d.HasMantissa precision scale m) : rustDecimalMantissa d.mantissa d.scale scale = some m := by
  cases hm : rustDecimalMantissa d.mantissa d.scale scale with
  | some m' => rw [(d.mantissa_rounds scale hm).unique h.1]
  | none =>
    rcases (d.mantissa_none scale).mp hm with hmax | ⟨hup, hfits⟩
    · exact absurd hmax (by rw [decimal128MaxScale]; omega)
    · -- scaling up is exact, and the digits of the column fit `i128`
      have hround := h.1
      rw [d.value_up scale hup.le] at hround
      have heq := (RoundsHalfEven.int _).unique hround
      have hlt : m.natAbs < 2 ^ 127 := lt_trans (lt_of_lt_of_le h.2 (ten_pow_le hp)) (by decide)
      rw [heq] at hfits
      exact absurd (⟨by simp only [i128Min]; omega, by simp only [i128Max]; omega⟩ : FitsI128 m) hfits

theorem mapDecimal_iff (tr : Traits) {precision scale : Nat} (hp : precision ≤ 38) (hs : scale ≤ precision) (m : Int) :
    mapDecimal tr precision scale d.toValue = .ok (.int m) ↔ d.HasMantissa precision scale m := by
  rw [mapDecimal, toValue, DfDerive.tryToI128Mantissa]
  constructor
  · intro h
    cases hm : rustDecimalMantissa d.mantissa d.scale scale with
    | none =>
      rw [hm] at h
      cases h
    | some m' =>
      rw [hm] at h
      simp only at h
      split at h
      · cases h
      · rename_i hlt
        cases h
        exact ⟨d.mantissa_rounds scale hm, not_le.mp hlt⟩
  · intro h
    rw [d.hasMantissa_encoded hp hs h]
    exact if_neg (not_le.mpr h.2)

theorem mapDecimal_error (tr : Traits) {precision scale : Nat}
    (h : ¬ ∃ m, d.HasMantissa precision scale m) :
    ∃ e, mapDecimal tr precision scale d.toValue = .error (.err (.compute e)) := by
  cases hm : rustDecimalMantissa d.mantissa d.scale scale with
  | none =>
    refine ⟨.decimalRescale scale, ?_⟩
    rw [mapDecimal, toValue, DfDerive.tryToI128Mantissa, hm]
    rfl
  | some m =>
    refine ⟨.decimalPrecision m precision scale, ?_⟩
    rw [mapDecimal, toValue, DfDerive.tryToI128Mantissa, hm]
    exact if_pos (not_lt.mp fun hlt => h ⟨m, d.mantissa_rounds scale hm, hlt⟩)

end RustDecimal

/-! ## Columns -/

/-- A decimal with a mantissa in the column. -/
def Representable (precision scale : Nat) (u : Value) : Prop :=
  ∃ (d : RustDecimal) (m : Int), u = d.toValue ∧ d.HasMantissa precision scale m

theorem encodes_decimal (tr : Traits) {precision scale : Nat} (hp : precision ≤ 38) (hs : scale ≤ precision)
    {u : Value} (hu : ∃ d : RustDecimal, u = d.toValue) :
    Encodes tr (.decimal precision scale) u ↔ Representable precision scale u := by
  obtain ⟨d, rfl⟩ := hu
  constructor
  · rintro ⟨x, hx⟩
    by_contra hnot
    obtain ⟨e, he⟩ := d.mapDecimal_error tr fun ⟨m, hm⟩ => hnot ⟨d, m, rfl, hm⟩
    have hx' : mapDecimal tr precision scale d.toValue = .ok x := hx
    rw [he] at hx'
    cases hx'
  · rintro ⟨d', m, hd, hm⟩
    rw [hd]
    exact ⟨.int m, (d'.mapDecimal_iff tr hp hs m).mpr hm⟩

/-- For an accepted attribute, a decimal has a mantissa in the column exactly when its half-even
    rounding has at most as many digits as declared, and is an error otherwise. So it is on
    every way a column of a struct leads through wrappers, lists and tuples. -/
theorem decimal_columns {attr : List DecimalItem} {p sc : Nat} (hattr : parseDecimalAttr attr = .ok (p, sc)) (tr : Traits) :
    (∀ d : RustDecimal, d.convert p sc = .ok (mapDecimal tr p sc d.toValue) ∧
      (∀ m, mapDecimal tr p sc d.toValue = .ok (.int m) ↔ d.HasMantissa p sc m) ∧
      ((¬ ∃ m, d.HasMantissa p sc m) → ∃ e, mapDecimal tr p sc d.toValue = .error (.err (.compute e))) ∧
      (rustDecimalMantissa d.mantissa d.scale sc = none → ¬ ∃ m, d.HasMantissa p sc m) ∧
      ∀ m, d.HasMantissa p sc m → leafCell tr (.decimal p sc) d.toValue = .val (.int m)) ∧
    (∀ (s : DerivedStruct) (env : Env), env.traits = tr → List.Forall₂ (fun c r => ∀ items : List Operand,
      r.route = .primitive (.decimal p sc) → RowItems items →
        (∀ it ∈ items, r.walk.typed (fun u => ∃ d : RustDecimal, u = d.toValue) it.erase) →
          Run.Spec (c.run env items) (r.walk.fits (fun us => ∀ u ∈ us, Representable p sc u) (items.map Operand.erase))
            (PrimitiveColumn (.decimal p sc) (leafCell tr (.decimal p sc)) r.walk c.name (items.map Operand.erase)))
      s.ir.columns s.refs) ∧
    (∀ (s : DerivedStruct) (typeName : String) (types : TypePath → TypeTree) (vs : List Value),
      (∀ v ∈ vs, ((TypeTree.derived s typeName types).spec tr).typed v) →
        ∀ r ∈ s.refs, r.route = .primitive (.decimal p sc) → ∀ v ∈ vs, ∀ u ∈ r.walk.leaves v,
          (∃ d : RustDecimal, u = d.toValue) → ¬ Representable p sc u →
            (((TypeTree.derived s typeName types).impl tr).columnarToDataframe vs).Fails) := by
  obtain ⟨-, hp, hs⟩ := parseDecimalAttr_bounds hattr
  refine ⟨fun d => ⟨d.convert_eq tr hp, d.mapDecimal_iff tr hp hs, d.mapDecimal_error tr, ?_, ?_⟩, ?_, ?_⟩
  · rintro hnone ⟨m, hm⟩
    rw [d.hasMantissa_encoded hp hs hm] at hnone
    cases hnone
  · intro m hm
    exact Encodes.cell ((d.mapDecimal_iff tr hp hs m).mpr hm)
  · rintro s env rfl
    refine s.each_column fun c r hcr items hroute hrows ht => ?_
    have hrun := hcr.follows.run_primitive env (hcr.route.trans hroute) hrows
      fun it hit => r.walk.typed_mono _ _ _ (fun _ _ => trivial) (ht it hit)
    rw [columnCell_of_ne (fun h => by cases h)] at hrun
    refine Runs.congr hrun ?_
    rw [r.walk.fits_iff (AllEncode _ _), r.walk.fits_iff (fun us => ∀ u ∈ us, Representable p sc u)]
    refine and_congr_right fun _ => forall₂_congr fun u hu => ?_
    obtain ⟨v, hv, hu⟩ := List.mem_flatMap.mp hu
    obtain ⟨it, hit, rfl⟩ := List.mem_map.mp hv
    exact encodes_decimal env.traits hp hs (r.walk.typed_leaves _ _ (ht it hit) u hu)
  · intro s typeName types vs ht r hr hroute v hv u hu hd hnot
    have hm := TypeTree.models tr (.derived s typeName types)
    refine (hm.fails ht).mpr fun ⟨_, haccepts⟩ => hnot ?_
    have hrow := (@structRow_accepts ⟨tr, fun ty => (types ty).impl tr⟩ (fun ty => (types ty).spec tr) s.refs vs).mp haccepts r hr
    have haccepted := ((r.walk.fits_iff _ vs).mp ((RowSpec.accepts_under _ _ vs).mp hrow)).2
    rw [hroute] at haccepted
    exact (encodes_decimal tr hp hs hd).mp (haccepted.2 u (List.mem_flatMap.mpr ⟨v, hv, hu⟩))

/-- 9.985 in a column `decimal(precision = 3, scale = 2)`. -/
theorem decimal_columns_price : parseDecimalAttr [⟨"precision", .integer 3⟩, ⟨"scale", .integer 2⟩] = .ok (3, 2) ∧
    (⟨9985, 3, by decide, by decide⟩ : RustDecimal).HasMantissa 3 2 998 := by
  have hattr : parseDecimalAttr [⟨"precision", .integer 3⟩, ⟨"scale", .integer 2⟩] = .ok (3, 2) := rfl
  exact ⟨hattr, (((decimal_columns hattr brokenTraits).1 _).2.1 998).mp rfl⟩

end DfDerive
