/-
  DfDerive.Core.DecimalProofs — rescaling a `rust_decimal::Decimal`.

  `RustDecimal.tryToI128Mantissa_eq`: no operator of the code panics. `RustDecimal.mantissa_none` and
  `RustDecimal.mantissa_rounds`: the code answers `None` only for a scale or a scaled mantissa that
  does not fit, and otherwise the half-even rounding of the decimal at the target scale.
  `RustDecimal.rescale_exact` puts the three together.
-/

import DfDerive.Core.Decimal
import DfDerive.Lib.Rounding
import DfDerive.Lib.Runs

namespace DfDerive

open Lib

/-! ## No operator panics -/

theorem ten_pow_le {n k : Nat} (h : n ≤ k) : 10 ^ n ≤ 10 ^ k := Nat.pow_le_pow_right (by decide) h

theorem i128_ok {n : Int} (h : n.natAbs < 2 ^ 127) : i128 n = .ok n := by
  rw [i128, if_pos]
  simp only [i128Min, i128Max]
  omega

theorem i128Pow_ok {n : Nat} (h : n ≤ 38) : i128Pow 10 n = .ok (10 ^ n) := by
  refine i128_ok ?_
  rw [Int.natAbs_pow]
  exact lt_of_le_of_lt (ten_pow_le h) (by decide)

theorem castUnsigned_pow {n : Nat} (h : n ≤ 38) : castUnsigned (10 ^ n) = 10 ^ n := by
  have hlt : 10 ^ n < 2 ^ 128 := lt_of_le_of_lt (ten_pow_le h) (by decide)
  rw [castUnsigned, Int.emod_eq_of_lt (by positivity) (by exact_mod_cast hlt)]
  exact_mod_cast Int.toNat_natCast (10 ^ n)

theorem castSigned_ok {n : Nat} (h : n < 2 ^ 127) : castSigned n = n := if_pos h

theorem u128Div_ok {a b : Nat} (h : 0 < b) : u128Div a b = .ok (a / b) := if_neg h.ne'

theorem u128Rem_ok {a b : Nat} (h : 0 < b) : u128Rem a b = .ok (a % b) := if_neg h.ne'

/-- Applying the sign again. -/
theorem signed_ok (neg : Bool) {n : Int} (h : n.natAbs < 2 ^ 127) :
    (if neg = true then do return some (← i128 (-n)) else return some n : Arith (Option Int)) =
      .ok (some (if neg then -n else n)) := by
  cases neg with
  | false => rfl
  | true =>
    rw [if_pos rfl, i128_ok (by omega)]
    rfl

/-- The code run with the machine's operators is the unbounded one. -/
theorem RustDecimal.tryToI128Mantissa_eq (d : RustDecimal) (targetScale : Nat) :
    d.tryToI128Mantissa targetScale = .ok (rustDecimalMantissa d.mantissa d.scale targetScale) := by
  obtain ⟨m, s, hm, hs⟩ := d
  simp only [RustDecimal.tryToI128Mantissa, rustDecimalMantissa]
  by_cases hmax : decimal128MaxScale < targetScale
  · rw [if_pos hmax, if_pos hmax]
    rfl
  rw [if_neg hmax, if_neg hmax]
  have hmax' : targetScale ≤ 38 := Nat.le_of_not_lt hmax
  rcases lt_trichotomy s targetScale with hlt | heq | hgt
  · rw [if_neg (by omega), if_pos hlt, if_neg (by omega), if_pos hlt, u32Sub, if_pos (by omega)]
    show (do let pow ← i128Pow 10 (targetScale - s); _) = _
    rw [i128Pow_ok (by omega)]
    rfl
  · rw [if_pos heq, if_pos heq]
    rfl
  · have hdiff : s - targetScale ≤ 38 := by omega
    rw [if_neg (by omega), if_neg (by omega), if_neg (by omega), if_neg (by omega), u32Sub, if_pos (by omega)]
    have hpos : 0 < 10 ^ (s - targetScale) := Nat.pow_pos (by decide)
    have hq : m.natAbs / 10 ^ (s - targetScale) < 2 ^ 96 := lt_of_le_of_lt (Nat.div_le_self _ _) hm
    simp only [ok_bind, i128Pow_ok hdiff, castUnsigned_pow hdiff, u128Div_ok hpos, u128Rem_ok hpos,
      u128Div_ok Nat.two_pos]
    rw [castSigned_ok (by omega)]
    generalize m.natAbs / 10 ^ (s - targetScale) = q at *
    generalize m.natAbs % 10 ^ (s - targetScale) = r at *
    generalize 10 ^ (s - targetScale) / 2 = half at *
    rcases lt_trichotomy r half with hlt | heq | hgt
    · rw [compare_lt_iff_lt.mpr hlt, if_neg (Nat.not_lt.mpr hlt.le), if_pos hlt]
      exact signed_ok _ (n := (q : Int)) (by omega)
    · subst heq
      rw [compare_eq_iff_eq.mpr rfl, if_neg (Nat.lt_irrefl r), if_neg (Nat.lt_irrefl r)]
      simp only [i128_ok (n := (q : Int) + q % 2) (by omega), ok_bind]
      exact signed_ok _ (by omega)
    · rw [compare_gt_iff_gt.mpr hgt, if_pos hgt]
      simp only [i128_ok (n := (q : Int) + 1) (by omega), ok_bind]
      exact signed_ok _ (by omega)

/-! ## The answer is the half-even rounding -/

def FitsI128 (n : Int) : Prop := i128Min ≤ n ∧ n ≤ i128Max

theorem checkedMulI128_none {a b : Int} : checkedMulI128 a b = none ↔ ¬ FitsI128 (a * b) := by
  rw [checkedMulI128]
  split
  · rename_i h
    exact iff_of_false nofun (not_not.mpr h)
  · rename_i h
    exact iff_of_true rfl h

namespace RustDecimal

variable (d : RustDecimal) (targetScale : Nat)

def value : ℚ := d.mantissa / 10 ^ d.scale

theorem mantissa_none : rustDecimalMantissa d.mantissa d.scale targetScale = none ↔
    decimal128MaxScale < targetScale ∨
      d.scale < targetScale ∧ ¬ FitsI128 (d.mantissa * 10 ^ (targetScale - d.scale)) := by
  rw [rustDecimalMantissa]
  by_cases hmax : decimal128MaxScale < targetScale
  · simp [hmax]
  rw [if_neg hmax]
  rcases lt_trichotomy d.scale targetScale with hlt | heq | hgt
  · rw [if_neg hlt.ne, if_pos hlt, checkedMulI128_none]
    simp [hlt, hmax]
  · simp [heq, hmax]
  · rw [if_neg hgt.ne', if_neg hgt.not_gt]
    simp [hmax, hgt.not_gt]

theorem value_up (h : d.scale ≤ targetScale) :
    d.value * 10 ^ targetScale = ((d.mantissa * 10 ^ (targetScale - d.scale) : ℤ) : ℚ) := by
  rw [value, ← Nat.sub_add_cancel h, pow_add, Nat.add_sub_cancel]
  push_cast
  field_simp

theorem value_down (h : targetScale ≤ d.scale) :
    d.value * 10 ^ targetScale = (d.mantissa : ℚ) / ((10 ^ (d.scale - targetScale) : ℕ) : ℚ) := by
  rw [value]
  conv_lhs => rw [← Nat.sub_add_cancel h, pow_add]
  push_cast
  field_simp

/-- A power of ten is twice its half. -/
theorem pow_half {n : Nat} (h : 0 < n) : 10 ^ n = 2 * (10 ^ n / 2) := by
  obtain ⟨k, rfl⟩ := Nat.exists_eq_succ_of_ne_zero h.ne'
  rw [pow_succ]
  omega

theorem mantissa_rounds {m : Int} (h : rustDecimalMantissa d.mantissa d.scale targetScale = some m) :
    RoundsHalfEven (d.value * 10 ^ targetScale) m := by
  rw [rustDecimalMantissa] at h
  by_cases hmax : decimal128MaxScale < targetScale
  · rw [if_pos hmax] at h
    cases h
  rw [if_neg hmax] at h
  rcases lt_trichotomy d.scale targetScale with hlt | heq | hgt
  · rw [if_neg hlt.ne, if_pos hlt, checkedMulI128] at h
    split at h
    · cases h
      rw [value_up d targetScale hlt.le]
      exact .int _
    · cases h
  · rw [if_pos heq] at h
    cases h
    rw [value_up d targetScale heq.le, heq, Nat.sub_self, pow_zero, mul_one]
    exact .int _
  · rw [if_neg hgt.ne', if_neg hgt.not_gt] at h
    simp only [Option.some.injEq] at h
    rw [value_down d targetScale hgt.le]
    have hhalf := pow_half (n := d.scale - targetScale) (by omega)
    have hpos : 0 < 10 ^ (d.scale - targetScale) := Nat.pow_pos (by decide)
    generalize 10 ^ (d.scale - targetScale) = pow at *
    -- the rounding of the magnitude, with half the power for the power
    have hmag : (divHalfEven d.mantissa.natAbs pow : Int) = if pow / 2 < d.mantissa.natAbs % pow then
        ((d.mantissa.natAbs / pow : Nat) : Int) + 1 else if d.mantissa.natAbs % pow < pow / 2 then
        ((d.mantissa.natAbs / pow : Nat) : Int) else ((d.mantissa.natAbs / pow : Nat) : Int) +
        ((d.mantissa.natAbs / pow : Nat) : Int) % 2 := by
      rw [divHalfEven]
      generalize d.mantissa.natAbs / pow = q
      generalize d.mantissa.natAbs % pow = r
      split_ifs <;> omega
    have habs : RoundsHalfEven ((d.mantissa.natAbs : ℚ) / pow) (divHalfEven d.mantissa.natAbs pow) :=
      roundsHalfEven_div _ hpos
    rw [← hmag] at h
    by_cases hneg : d.mantissa < 0
    · have hm : (d.mantissa : ℚ) / pow = -((d.mantissa.natAbs : ℚ) / pow) := by
        rw [← neg_div, Nat.cast_natAbs, abs_of_neg hneg]
        push_cast
        rw [neg_neg]
      rw [decide_eq_true hneg, if_pos rfl] at h
      rw [← h, hm]
      exact habs.neg
    · have hm : (d.mantissa : ℚ) / pow = (d.mantissa.natAbs : ℚ) / pow := by
        rw [Nat.cast_natAbs, abs_of_nonneg (not_lt.mp hneg)]
      rw [decide_eq_false hneg, if_neg Bool.false_ne_true] at h
      rw [← h, hm]
      exact habs

/-- For every decimal and every target scale the code runs without a panic. It answers `None`
    when the scale is past 38 or the scaled-up mantissa does not fit `i128`, and otherwise
    the half-even rounding of the decimal at that scale. -/
theorem rescale_exact (targetScale : UInt32) : ∃ r, d.tryToI128Mantissa targetScale.toNat = .ok r ∧
    (r = none ↔ decimal128MaxScale < targetScale.toNat ∨
      d.scale < targetScale.toNat ∧ ¬ FitsI128 (d.mantissa * 10 ^ (targetScale.toNat - d.scale))) ∧
    ∀ m, r = some m → RoundsHalfEven (d.value * 10 ^ targetScale.toNat) m :=
  ⟨_, d.tryToI128Mantissa_eq _, d.mantissa_none _, fun _ h => d.mantissa_rounds _ h⟩

end RustDecimal

end DfDerive
