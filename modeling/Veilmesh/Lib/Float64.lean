/-
  Rounding of non-negative rationals to binary floating point with 53 significant bits.

  `round64 x` is the value nearest to `x`, ties to the even significand, as a rational.
  It covers the normal range; nothing smaller or larger is needed here.
-/
import Mathlib.Data.Rat.Defs
import Mathlib.Algebra.Order.Ring.Rat

namespace Veilmesh.Lib

/-- The integer nearest to `num / den`, ties to the even one. -/
def roundHalfEven (num den : Nat) : Nat :=
  let m := num / den
  let r := num % den
  if den < 2 * r ∨ 2 * r = den ∧ m % 2 = 1 then m + 1 else m

/-- The exponent of the leading bit of `p / q`. -/
def leadingBit (p q : Nat) : Int :=
  let k : Int := (Nat.log2 p : Int) - (Nat.log2 q : Int)
  if p * 2 ^ (-k).toNat < q * 2 ^ k.toNat then k - 1 else k

/-- The nearest number with 53 significant bits. -/
def round64 (x : ℚ) : ℚ :=
  let p := x.num.toNat
  let q := x.den
  if p = 0 then 0
  else
    let shift : Int := 52 - leadingBit p q
    (roundHalfEven (p * 2 ^ shift.toNat) (q * 2 ^ (-shift).toNat) : ℚ) * 2 ^ (-shift).toNat /
      2 ^ shift.toNat

end Veilmesh.Lib
