/-
  DfDerive.Lib.Rounding — rounding half to even over an ordered field: the nearest integer, and
  the even one of two equally near.

  `roundsHalfEven_iff` reduces it to the distance, `RoundsHalfEven.unique` says there is one
  such integer, `RoundsHalfEven.neg` that rounding is odd, and `roundsHalfEven_div` that the
  quotient bumped by the comparison of the remainder with half the divisor rounds a fraction.
-/

import Mathlib.Algebra.Order.Field.Basic
import Mathlib.Algebra.Order.Ring.Abs
import Mathlib.Algebra.Ring.Int.Parity
import Mathlib.Data.Nat.Cast.Order.Field
import Mathlib.Tactic.FieldSimp
import Mathlib.Tactic.Linarith
import Mathlib.Tactic.Push
import Mathlib.Tactic.Ring

namespace DfDerive.Lib

variable {K : Type*} [Field K] [LinearOrder K] [IsStrictOrderedRing K]

/-- `m` is the integer nearest to `x`, the even one when two are equally near. -/
structure RoundsHalfEven (x : K) (m : ℤ) : Prop where
  nearest : ∀ k : ℤ, |x - m| ≤ |x - k|
  tie : ∀ k : ℤ, k ≠ m → |x - k| = |x - m| → Even m

/-- Two integers are no farther apart than both are from `x`. -/
theorem abs_int_sub_le (x : K) (m k : ℤ) : ((|k - m| : ℤ) : K) ≤ |x - m| + |x - k| := by
  calc ((|k - m| : ℤ) : K) = |(x - m) - (x - k)| := by push_cast; congr 1; ring
    _ ≤ |x - m| + |x - k| := abs_sub _ _

theorem one_le_abs_add_abs (x : K) {m k : ℤ} (hne : k ≠ m) : 1 ≤ |x - m| + |x - k| := by
  have hstep : (1 : K) ≤ ((|k - m| : ℤ) : K) := by exact_mod_cast Int.one_le_abs (sub_ne_zero.mpr hne)
  exact hstep.trans (abs_int_sub_le x m k)

/-- The neighbour of `m` on the side of `x`. -/
theorem exists_neighbour (x : K) (m : ℤ) : ∃ k : ℤ, k ≠ m ∧ |x - k| = |(1 - |x - m|)| := by
  rcases le_total 0 (x - m) with hs | hs
  · refine ⟨m + 1, by omega, ?_⟩
    rw [abs_of_nonneg hs, ← abs_neg]
    congr 1
    push_cast
    ring
  · refine ⟨m - 1, by omega, ?_⟩
    rw [abs_of_nonpos hs]
    congr 1
    push_cast
    ring

theorem roundsHalfEven_iff {x : K} {m : ℤ} : RoundsHalfEven x m ↔ 2 * |x - m| ≤ 1 ∧ (2 * |x - m| = 1 → Even m) := by
  constructor
  · intro h
    obtain ⟨k, hne, hk⟩ := exists_neighbour x m
    have hnear := h.nearest k
    rw [hk] at hnear
    have hhalf : 2 * |x - m| ≤ 1 := by
      rcases le_abs.mp hnear with hle | hle
      · linarith
      · linarith
    refine ⟨hhalf, fun htie => h.tie k hne ?_⟩
    rw [hk, abs_of_nonneg (by linarith)]
    linarith
  · rintro ⟨hhalf, heven⟩
    refine ⟨fun k => ?_, fun k hne heq => heven ?_⟩
    · by_cases hne : k = m
      · rw [hne]
      · linarith [one_le_abs_add_abs x hne]
    · have := one_le_abs_add_abs x hne
      linarith

namespace RoundsHalfEven

variable {x : K} {m k : ℤ}

theorem unique (hm : RoundsHalfEven x m) (hk : RoundsHalfEven x k) : m = k := by
  by_contra hne
  have htie : |x - k| = |x - m| := le_antisymm (hk.nearest m) (hm.nearest k)
  obtain ⟨a, ha⟩ := hm.tie k (Ne.symm hne) htie
  obtain ⟨b, hb⟩ := hk.tie m hne htie.symm
  -- two even integers are at least 2 apart
  have hgap : 2 ≤ |k - m| := by
    have h1 := le_abs_self (k - m)
    have h2 := neg_abs_le (k - m)
    omega
  have hgap' : (2 : K) ≤ ((|k - m| : ℤ) : K) := by exact_mod_cast hgap
  have hnear := abs_int_sub_le x m k
  have hhalf := (roundsHalfEven_iff.mp hm).1
  linarith

protected theorem int (m : ℤ) : RoundsHalfEven (m : K) m := by
  rw [roundsHalfEven_iff, sub_self, abs_zero, mul_zero]
  exact ⟨zero_le_one, fun h => absurd h zero_ne_one⟩

theorem neg (h : RoundsHalfEven x m) : RoundsHalfEven (-x) (-m) := by
  have hdist : |-x - ((-m : ℤ) : K)| = |x - m| := by
    rw [← abs_neg]
    congr 1
    push_cast
    ring
  rw [roundsHalfEven_iff, hdist]
  rw [roundsHalfEven_iff] at h
  exact ⟨h.1, fun htie => (h.2 htie).neg⟩

end RoundsHalfEven

/-- Rounding a fraction, by the distance in multiples of the divisor. -/
theorem roundsHalfEven_ratio {n m : ℤ} {d : ℕ} (hd : 0 < d) :
    RoundsHalfEven ((n : K) / d) m ↔ 2 * |n - m * d| ≤ d ∧ (2 * |n - m * d| = d → Even m) := by
  have hpos : (0 : K) < d := by exact_mod_cast hd
  have hdist : 2 * |(n : K) / d - m| = ((2 * |n - m * d| : ℤ) : K) / d := by
    have hdiff : (n : K) / d - m = ((n - m * d : ℤ) : K) / d := by
      push_cast
      field_simp
    rw [hdiff, abs_div, abs_of_pos hpos]
    push_cast
    ring
  rw [roundsHalfEven_iff, hdist, div_le_one hpos, div_eq_one_iff_eq hpos.ne']
  norm_cast

/-- The quotient, bumped when the remainder is past half the divisor, or at half of it and the
    quotient odd. -/
def divHalfEven (a b : ℕ) : ℕ :=
  if b < 2 * (a % b) then a / b + 1 else if 2 * (a % b) < b then a / b else a / b + a / b % 2

theorem roundsHalfEven_div (a : ℕ) {b : ℕ} (hb : 0 < b) : RoundsHalfEven ((a : K) / b) (divHalfEven a b) := by
  obtain ⟨m, hm⟩ : ∃ m, m = divHalfEven a b := ⟨_, rfl⟩
  rw [← hm]
  rw [divHalfEven] at hm
  have hratio := roundsHalfEven_ratio (K := K) (n := a) (m := m) hb
  rw [Int.cast_natCast] at hratio
  rw [hratio]
  have hrem := Nat.mod_lt a hb
  have hdiv := Nat.div_add_mod' a b
  generalize a / b = q at *
  generalize a % b = r at *
  -- the distance to the quotient is the remainder, that to its successor the rest
  have hq : |(a : ℤ) - q * b| = r := by
    rw [← hdiv]
    push_cast
    rw [add_sub_cancel_left, abs_of_nonneg (by omega)]
  have hsucc : |(a : ℤ) - ((q + 1 : ℕ) : ℤ) * b| = b - r := by
    rw [← hdiv, abs_of_nonpos]
    · push_cast
      ring
    · push_cast
      linarith
  rcases lt_trichotomy (2 * r) b with hlt | heq | hgt
  · rw [if_neg (by omega), if_pos hlt] at hm
    subst hm
    rw [hq]
    exact ⟨by omega, fun h => absurd h (by omega)⟩
  · rw [if_neg (by omega), if_neg (by omega)] at hm
    rcases Nat.mod_two_eq_zero_or_one q with heven | hodd
    · rw [heven, Nat.add_zero] at hm
      subst hm
      rw [hq]
      exact ⟨by omega, fun _ => by exact_mod_cast Nat.even_iff.mpr heven⟩
    · rw [hodd] at hm
      subst hm
      rw [hsucc]
      exact ⟨by omega, fun _ => by exact_mod_cast Nat.even_iff.mpr (by omega)⟩
  · rw [if_pos hgt] at hm
    subst hm
    rw [hsucc]
    exact ⟨by omega, fun h => absurd h (by omega)⟩

end DfDerive.Lib
