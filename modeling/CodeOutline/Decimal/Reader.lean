import CodeOutline.Decimal.Double

/-!
# Reading numbers

Natural numbers and decimal fractions as people write them in a setting. A fraction is read as the
double nearest to it.
-/

namespace CodeOutline.Decimal

def isDigit (c : Char) : Bool := '0' ≤ c && c ≤ '9'

def digitValue (c : Char) : Nat := c.toNat - 0x30

/-- The number that a list of digits spells. -/
def ofDigits (ds : List Char) : Nat := ds.foldl (fun n c => 10 * n + digitValue c) 0

/-- The double nearest to `digits * 10 ^ exponent`. Beyond these bounds it is zero or infinite,
whatever the digits are, and no power needs to be computed. -/
def toFloat (negative : Bool) (digits : List Char) (exponent : Int) : Float :=
  let n := ofDigits digits
  let magnitude := ((digits.dropWhile (· == '0')).length : Int) + exponent
  if n == 0 ∨ magnitude < -330 then Double.nearest negative 0 1
  else if 310 < magnitude then Double.nearest negative (twoTo 1024) 1
  else if 0 ≤ exponent then Double.nearest negative (n * tenTo exponent.toNat) 1
  else Double.nearest negative n (tenTo (-exponent).toNat)

/-- A natural number with an optional plus sign. -/
def nat? (s : String) : Option Nat :=
  let ds := match s.toList with
    | '+' :: rest => rest
    | cs => cs
  if !ds.isEmpty && ds.all isDigit then some (ofDigits ds) else none

/-- The exponent after a fraction, or zero if nothing follows it. -/
def exponentPart? : List Char → Option Int
  | [] => some 0
  | e :: rest =>
    if e = 'e' ∨ e = 'E' then
      let (negative, ds) := match rest with
        | '+' :: ds => (false, ds)
        | '-' :: ds => (true, ds)
        | ds => (false, ds)
      if !ds.isEmpty && ds.all isDigit then
        some (if negative then -(ofDigits ds : Int) else ofDigits ds)
      else none
    else none

/-- A number without a sign: digits with at most one point among or beside them, and an optional
exponent. -/
def unsigned? (negative : Bool) (cs : List Char) : Option Float :=
  let whole := cs.takeWhile isDigit
  let (fraction, rest) := match cs.dropWhile isDigit with
    | '.' :: after => (after.takeWhile isDigit, after.dropWhile isDigit)
    | after => ([], after)
  if whole.isEmpty && fraction.isEmpty then none
  else (exponentPart? rest).map fun e =>
    toFloat negative (whole ++ fraction) (e - fraction.length)

def infinity (negative : Bool) : Float := Double.nearest negative (twoTo 1024) 1

def notANumber : Float := Float.ofBits 0x7ff8000000000000

/-- A decimal fraction with an optional sign, or a word for an infinite or undefined value. -/
def float? (s : String) : Option Float :=
  let (negative, cs) := match s.toList with
    | '+' :: rest => (false, rest)
    | '-' :: rest => (true, rest)
    | cs => (false, cs)
  let word := String.ofList (cs.map Char.toLower)
  if word == "inf" || word == "infinity" then some (infinity negative)
  else if word == "nan" then some notANumber
  else unsigned? negative cs

end CodeOutline.Decimal
