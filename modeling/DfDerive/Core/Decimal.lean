/-
  DfDerive.Core.Decimal — the reference `Decimal128Encode` (`df-derive-core/src/lib.rs`).

  `rustDecimalMantissa` is the rescaling over unbounded integers; `RustDecimal.tryToI128Mantissa`
  is the same code with every operator checked, an operator that would panic being an error.
-/

import Mathlib.Algebra.Order.Ring.Int

namespace DfDerive

def decimal128MaxScale : Nat := 38

def i128Min : Int := -(2 ^ 127)
def i128Max : Int := 2 ^ 127 - 1

/-- `i128::checked_mul` -/
def checkedMulI128 (a b : Int) : Option Int := if i128Min ≤ a * b ∧ a * b ≤ i128Max then some (a * b) else none

/-- `Decimal128Encode::try_to_i128_mantissa` for `rust_decimal::Decimal`. -/
def rustDecimalMantissa (mantissa : Int) (sourceScale targetScale : Nat) : Option Int :=
  if decimal128MaxScale < targetScale then none
  else if sourceScale = targetScale then some mantissa
  else if sourceScale < targetScale then checkedMulI128 mantissa (10 ^ (targetScale - sourceScale))
  else
    let pow : Nat := 10 ^ (sourceScale - targetScale)
    let neg := decide (mantissa < 0)
    let abs := mantissa.natAbs
    let q : Int := (abs / pow : Nat)
    let r := abs % pow
    let half := pow / 2
    -- `q & 1` of a non-negative quotient
    let rounded := if half < r then q + 1 else if r < half then q else q + q % 2
    some (if neg then -rounded else rounded)

/-! ## With the machine's operators -/

/-- What an integer operator panics on. -/
inductive ArithPanic where
  | overflow
  | divideByZero
  deriving DecidableEq, Repr

abbrev Arith := Except ArithPanic

def i128 (n : Int) : Arith Int := if i128Min ≤ n ∧ n ≤ i128Max then .ok n else .error .overflow

def u32Sub (a b : Nat) : Arith Nat := if b ≤ a then .ok (a - b) else .error .overflow

/-- `i128::pow` -/
def i128Pow (base : Int) (exp : Nat) : Arith Int := i128 (base ^ exp)

/-- `u128::pow` -/
def u128Pow (base exp : Nat) : Arith Nat := if base ^ exp < 2 ^ 128 then .ok (base ^ exp) else .error .overflow

def u128Div (a b : Nat) : Arith Nat := if b = 0 then .error .divideByZero else .ok (a / b)

def u128Rem (a b : Nat) : Arith Nat := if b = 0 then .error .divideByZero else .ok (a % b)

/-- `i128::cast_unsigned` -/
def castUnsigned (n : Int) : Nat := (n % 2 ^ 128).toNat

/-- `u128::cast_signed` -/
def castSigned (n : Nat) : Int := if n < 2 ^ 127 then n else n - 2 ^ 128

/-- A `rust_decimal::Decimal`: a mantissa of 96 bits, a sign and a scale up to 28. -/
structure RustDecimal where
  mantissa : Int
  scale : Nat
  mantissa_lt : mantissa.natAbs < 2 ^ 96
  scale_le : scale ≤ 28

/-- `Decimal128Encode::try_to_i128_mantissa`, operator by operator. -/
def RustDecimal.tryToI128Mantissa (self : RustDecimal) (targetScale : Nat) : Arith (Option Int) := do
  if decimal128MaxScale < targetScale then
    return none
  let sourceScale := self.scale
  let mantissa := self.mantissa
  if sourceScale = targetScale then
    return some mantissa
  if sourceScale < targetScale then
    let diff ← u32Sub targetScale sourceScale
    let pow ← i128Pow 10 diff
    return checkedMulI128 mantissa pow
  let diff ← u32Sub sourceScale targetScale
  let pow := castUnsigned (← i128Pow 10 diff)
  let neg := decide (mantissa < 0)
  let abs := mantissa.natAbs
  let q := castSigned (← u128Div abs pow)
  let r ← u128Rem abs pow
  let half ← u128Div pow 2
  let rounded ← match compare r half with
    | .gt => i128 (q + 1)
    | .lt => pure q
    -- `q & 1` is the lowest bit
    | .eq => i128 (q + q % 2)
  if neg then
    return some (← i128 (-rounded))
  return some rounded

end DfDerive
