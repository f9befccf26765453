import CodeOutline.Decimal.Power

/-!
# Doubles as whole numbers

A finite double is a whole number times a power of two. `Double.ofFloat` takes the bits apart, and
`Double.nearest` goes back: it gives the double nearest to a quotient of whole numbers, where of
two neighbours at the same distance the one with the even significand is taken.
-/

namespace CodeOutline

inductive Double where
  | nan
  | infinite (negative : Bool)
  /-- The number `significand * 2 ^ exponent`, or its opposite. -/
  | finite (negative : Bool) (significand : Nat) (exponent : Int)
deriving DecidableEq

namespace Double

/-- The least exponent of a double. -/
def minExponent : Int := -1074

def ofBits (bits : Nat) : Double :=
  let negative := bits / twoTo 63 % 2 == 1
  let biased : Nat := bits / twoTo 52 % twoTo 11
  let low := bits % twoTo 52
  if biased == twoTo 11 - 1 then if low == 0 then infinite negative else nan
  else if biased == 0 then finite negative low minExponent
  else finite negative (low + twoTo 52) ((biased : Int) - 1075)

def ofFloat (x : Float) : Double := ofBits x.toBits.toNat

/-- The whole number nearest to `n / d`, where of two at the same distance the even one is taken. -/
def roundDiv (n d : Nat) : Nat :=
  let low := n / d
  let twice := 2 * (n % d)
  if twice < d then low
  else if d < twice then low + 1
  else if low % 2 == 0 then low else low + 1

/-- The quotient of `n / d` by `2 ^ e`, as a fraction. -/
def scaled (n d : Nat) (e : Int) : Nat × Nat :=
  if 0 ≤ e then (n, d * twoTo e.toNat) else (n * twoTo (-e).toNat, d)

/-- The exponent of the double nearest to `n / d`: such that the significand has 53 bits, unless
that is below the least exponent. -/
def exponentFor (n d : Nat) : Int :=
  let guess := max ((n.log2 : Int) - d.log2 - 52) minExponent
  let (num, den) := scaled n d guess
  if num / den < twoTo 52 ∧ minExponent < guess then guess - 1 else guess

/-- The bits of the double nearest to `n / d`, without a sign. -/
def nearestBits (n d : Nat) : Nat :=
  if n == 0 then 0
  else
    let e := exponentFor n d
    let (num, den) := scaled n d e
    let significand := roundDiv num den
    -- rounding up may carry into a 54th bit, which adding to the biased exponent takes care of
    let bits := significand + (e - minExponent).toNat * twoTo 52
    min bits (2047 * twoTo 52)

/-- The double nearest to `n / d`, or its opposite. -/
def nearest (negative : Bool) (n d : Nat) : Float :=
  Float.ofBits (UInt64.ofNat ((if negative then twoTo 63 else 0) + nearestBits n d))

end Double

end CodeOutline
