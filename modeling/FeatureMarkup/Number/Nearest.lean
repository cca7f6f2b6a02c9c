/-! The binary floating-point number nearest to a positive quotient.

A finite binary64 number is `q · 2^e` with `q < 2^53` and `-1074 ≤ e ≤ 971`. The
exponent of a quotient is chosen so that `q` fills 53 bits, or is the least one;
`q` is then the rounded quotient, a tie going to the even neighbour. The bit
pattern counts the numbers upwards, so a `q` that rounds up to `2^53` falls on the
next exponent by itself, and everything past the largest number is infinity. -/
namespace FeatureMarkup.Number

/-- The bits of infinity. -/
def infinityBits : Nat := 0x7FF0000000000000

/-- A quotient rounded to the nearest whole number, a tie to the even one. -/
def roundQuotient (num den : Nat) : Nat :=
  let q := num / den
  let twice := 2 * (num % den)
  if den < twice ∨ (twice = den ∧ q % 2 = 1) then q + 1 else q

/-- The largest `k` with `2^k ≤ num / den`, for positive `num` and `den`. -/
def floorLog (num den : Nat) : Int :=
  let k : Int := (num.log2 : Int) - den.log2
  if den * Nat.pow 2 k.toNat ≤ num * Nat.pow 2 (-k).toNat then k else k - 1

/-- The bits of the number nearest to `num / den`. -/
def nearestBits (num den : Nat) : Nat :=
  let e : Int := max (floorLog num den - 52) (-1074)
  let q := roundQuotient (num * Nat.pow 2 (-e).toNat) (den * Nat.pow 2 e.toNat)
  min ((e + 1074).toNat * Nat.pow 2 52 + q) infinityBits

end FeatureMarkup.Number
