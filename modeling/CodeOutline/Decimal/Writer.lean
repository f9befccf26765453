import CodeOutline.Decimal.Double

/-!
# Doubles in decimal digits

`Decimal.shortest` writes a double with the fewest digits that read back as the same double, and
of those the nearest to it. It looks at ever finer powers of ten until a multiple of one falls into
the interval of numbers that round to the double. The ends of this interval belong to it when the
significand is even. `Decimal.rounded` writes the nearest whole number. Neither uses an exponent.
-/

namespace CodeOutline.Decimal

/-- A positive double with the interval of numbers that round to it, in quarters of its last
place. -/
structure Interval where
  low : Nat
  value : Nat
  high : Nat
  /-- The exponent of two of one quarter. -/
  exponent : Int
  /-- Whether the ends belong to the interval. -/
  closed : Bool

/-- Below a power of two the doubles lie twice as close. -/
def interval (significand : Nat) (exponent : Int) : Interval where
  low := if significand == twoTo 52 ∧ Double.minExponent < exponent then 4 * significand - 1
    else 4 * significand - 2
  value := 4 * significand
  high := 4 * significand + 2
  exponent := exponent - 2
  closed := significand % 2 == 0

/-- Powers of ten and two as whole numbers: `c * 10 ^ k` compares with `q` quarters as `c` times the
first compares with `q` times the second. -/
def units (i : Interval) (k : Int) : Nat × Nat :=
  (tenTo k.toNat * twoTo (-i.exponent).toNat, twoTo i.exponent.toNat * tenTo (-k).toNat)

def Interval.contains (i : Interval) (units : Nat × Nat) (c : Nat) : Bool :=
  let x := c * units.1
  if i.closed then i.low * units.2 ≤ x && x ≤ i.high * units.2
  else i.low * units.2 < x && x < i.high * units.2

/-- The multiple of `10 ^ k` in the interval that is nearest to its value, if there is one. -/
def multiple? (i : Interval) (k : Int) : Option Nat :=
  let u := units i k
  let floor := i.value * u.2 / u.1
  match i.contains u floor, i.contains u (floor + 1) with
  | true, true =>
    let below := i.value * u.2 - floor * u.1
    let above := (floor + 1) * u.1 - i.value * u.2
    some (if below < above then floor else floor + 1)
  | true, false => some floor
  | false, true => some (floor + 1)
  | false, false => none

/-- The coarsest power of ten that has a multiple in the interval, among `10 ^ k` and the `n` powers
below it, with that multiple. -/
def coarsest (i : Interval) (k : Int) : Nat → Nat × Int
  | 0 => (0, k)
  | n + 1 =>
    match multiple? i k with
    | some digits => (digits, k)
    | none => coarsest i (k - 1) n

/-- The digits of `digits * 10 ^ k`. -/
def positional (digits : Nat) (k : Int) : String :=
  let ds := Nat.toDigits 10 digits
  if 0 ≤ k then String.ofList (ds ++ List.replicate k.toNat '0')
  else
    let places := (-k).toNat
    let padded := List.replicate (places + 1 - ds.length) '0' ++ ds
    let whole := padded.length - places
    String.ofList (padded.take whole ++ '.' :: padded.drop whole)

def signed (negative : Bool) (s : String) : String := if negative then "-" ++ s else s

/-- The fewest digits that read back. -/
def shortest (x : Float) : String :=
  match Double.ofFloat x with
  | .nan => "NaN"
  | .infinite negative => signed negative "inf"
  | .finite negative 0 _ => signed negative "0"
  | .finite negative significand exponent =>
    -- doubles lie below 10 ^ 309, and all are multiples of 10 ^ (-1074)
    let (digits, k) := coarsest (interval significand exponent) 309 1400
    signed negative (positional digits k)

/-- The nearest whole number, the even one of two at the same distance. -/
def rounded (x : Float) : String :=
  match Double.ofFloat x with
  | .nan => "NaN"
  | .infinite negative => signed negative "inf"
  | .finite negative significand exponent =>
    let n := if 0 ≤ exponent then significand * twoTo exponent.toNat
      else Double.roundDiv significand (twoTo (-exponent).toNat)
    signed negative (toString n)

end CodeOutline.Decimal
