import CodeOutline.Decimal.Reader
import CodeOutline.Json.Lexer
import CodeOutline.Text.Chars
import CodeOutline.Toml.Basic

/-!
# Numbers, words and dates

The values that are written without quotes or brackets. Underscores may stand between the digits of
a number. A number that does not begin with zero is decimal; a zero may be followed by a letter for
another base. A fraction that is too large for a double is refused.
-/

namespace CodeOutline.Toml

open Decimal (isDigit ofDigits)

/-- The digits of a number without the underscores between them. -/
def digits? (isDigit : Char → Bool) (cs : List Char) : Option (List Char) :=
  let groups := Chars.pieces (· == '_') cs
  if groups.all fun group => !group.isEmpty && group.all isDigit then some groups.flatten else none

/-- A number without a sign and without zeros before it. -/
def whole? (cs : List Char) : Option (List Char) :=
  (digits? isDigit cs).filter fun ds => ds.length = 1 || ds.head? != some '0'

def cutSign : List Char → Bool × List Char
  | '+' :: rest => (false, rest)
  | '-' :: rest => (true, rest)
  | cs => (false, cs)

/-! ## Numbers -/

/-- The integers that some machine type holds. -/
def isInteger (n : Int) : Bool := -(twoTo 127) ≤ n && n < twoTo 128

/-- An integer in another base. -/
def based? (base : Nat) (cs : List Char) : Option Int := do
  let ds ← digits? (fun c => (Json.hexValue? c).any (· < base)) cs
  return ds.foldl (fun n c => base * n + (Json.hexValue? c).getD 0) 0

def integer? (cs : List Char) : Option Int :=
  Option.filter isInteger <|
    match cs with
    | '0' :: 'x' :: ds => based? 16 ds
    | '0' :: 'o' :: ds => based? 8 ds
    | '0' :: 'b' :: ds => based? 2 ds
    | _ =>
      let (negative, ds) := cutSign cs
      (whole? ds).map fun ds => if negative then -(ofDigits ds : Int) else ofDigits ds

/-- The part of a fraction after the point, without underscores. -/
def fraction? : List Char → Option (List Char)
  | '.' :: ds => (digits? isDigit ds).map ('.' :: ·)
  | [] => some []
  | _ => none

/-- The exponent of a fraction, without underscores. -/
def exponent? : List Char → Option (List Char)
  | e :: rest =>
    if e = 'e' ∨ e = 'E' then
      match rest with
      | '+' :: ds => (digits? isDigit ds).map ('e' :: ·)
      | '-' :: ds => (digits? isDigit ds).map ('e' :: '-' :: ·)
      | ds => (digits? isDigit ds).map ('e' :: ·)
    else none
  | [] => some []

def float? (cs : List Char) : Option Float :=
  let (negative, ds) := cutSign cs
  if ds = "inf".toList then some (Decimal.infinity negative)
  else if ds = "nan".toList then some Decimal.notANumber
  else do
    let isMark := fun (c : Char) => c == 'e' || c == 'E'
    let mantissa := ds.takeWhile fun c => !isMark c
    let whole ← whole? (mantissa.takeWhile (· != '.'))
    let fraction ← fraction? (mantissa.dropWhile (· != '.'))
    let exponent ← exponent? (ds.dropWhile fun c => !isMark c)
    if fraction.isEmpty && exponent.isEmpty then none
    else
      let sign := if negative then ['-'] else []
      (Decimal.float? (String.ofList (sign ++ whole ++ fraction ++ exponent))).filter (·.isFinite)

/-! ## Dates and times -/

/-- The number that exactly `n` digits spell. -/
def fixed? (n : Nat) (cs : List Char) : Option Nat :=
  if cs.length = n ∧ cs.all isDigit then some (ofDigits cs) else none

def isLeapYear (year : Nat) : Bool := (year % 4 == 0 && year % 100 != 0) || year % 400 == 0

def daysIn (year month : Nat) : Nat :=
  if month = 2 then if isLeapYear year then 29 else 28
  else if [4, 6, 9, 11].contains month then 30
  else 31

/-- Ten characters such as `1979-05-27`. -/
def isDate (cs : List Char) : Bool :=
  match Chars.pieces (· == '-') cs with
  | [y, m, d] =>
    match fixed? 4 y, fixed? 2 m, fixed? 2 d with
    | some y, some m, some d => 1 ≤ m && m ≤ 12 && 1 ≤ d && d ≤ daysIn y m
    | _, _, _ => false
  | _ => false

def isBelow (limit : Nat) (cs : List Char) : Bool := (fixed? 2 cs).any (· < limit)

/-- Seconds with an optional fraction. A minute may have a leap second. -/
def isSeconds (cs : List Char) : Bool :=
  match Chars.pieces (· == '.') cs with
  | [s] => isBelow 61 s
  | [s, fraction] => isBelow 61 s && !fraction.isEmpty && fraction.all isDigit
  | _ => false

/-- A time of day, with or without seconds. -/
def isTime (cs : List Char) : Bool :=
  match Chars.pieces (· == ':') cs with
  | [h, m] => isBelow 24 h && isBelow 60 m
  | [h, m, s] => isBelow 24 h && isBelow 60 m && isSeconds s
  | _ => false

def isOffset : List Char → Bool
  | [] => true
  | ['Z'] | ['z'] => true
  | sign :: cs =>
    (sign == '+' || sign == '-') &&
      match Chars.pieces (· == ':') cs with
      | [h, m] => isBelow 24 h && isBelow 60 m
      | _ => false

def isDateTime (cs : List Char) : Bool :=
  if isDate cs || isTime cs then true
  else if isDate (cs.take 10) then
    match cs.drop 10 with
    | mark :: rest =>
      let isOffsetMark := fun (c : Char) => ['Z', 'z', '+', '-'].contains c
      (mark == 'T' || mark == 't' || mark == ' ') &&
        isTime (rest.takeWhile fun c => !isOffsetMark c) &&
        isOffset (rest.dropWhile fun c => !isOffsetMark c)
    | [] => false
  else false

/-! ## Values -/

/-- The value of a run of characters. -/
def scalar? (cs : List Char) : Option Value :=
  if cs = "true".toList then some (.boolean true)
  else if cs = "false".toList then some (.boolean false)
  else match integer? cs with
    | some n => some (.integer n)
    | none =>
      match float? cs with
      | some x => some (.float x)
      | none => if isDateTime cs then some .dateTime else none

end CodeOutline.Toml
