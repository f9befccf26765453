import CodeOutline.Json.Basic

/-!
# The tokens of a JSON text

`Json.tokens?` reads a text into tokens, skipping blank space between them. It fails at the first
character that begins no token, inside an unfinished string, and at a control character or a bad
escape in one. Whether the tokens make a value is the reader's question.
-/

namespace CodeOutline.Json

def isSpace (c : Char) : Bool := c == ' ' || c == '\n' || c == '\t' || c == '\r'

/-! ## Strings -/

def hexValue? (c : Char) : Option Nat :=
  let n := c.toNat
  if 0x30 ≤ n ∧ n ≤ 0x39 then some (n - 0x30)
  else if 0x61 ≤ n ∧ n ≤ 0x66 then some (n - 0x57)
  else if 0x41 ≤ n ∧ n ≤ 0x46 then some (n - 0x37)
  else none

/-- The number that four hexadecimal digits spell. -/
def hexFour? (a b c d : Char) : Option Nat := do
  return ((← hexValue? a) * 16 + (← hexValue? b)) * 256 + (← hexValue? c) * 16 + (← hexValue? d)

/-- What a one-letter escape stands for. -/
def escaped? (c : Char) : Option Nat :=
  if c = '"' then some 0x22
  else if c = '\\' then some 0x5c
  else if c = '/' then some 0x2f
  else if c = 'b' then some 0x08
  else if c = 'f' then some 0x0c
  else if c = 'n' then some 0x0a
  else if c = 'r' then some 0x0d
  else if c = 't' then some 0x09
  else none

/-- The code points of a string up to its closing quote, and what follows. `done` holds those
already read, last first. -/
def stringFrom (done : List Nat) : List Char → Option (List Nat × List Char)
  | [] => none
  | '"' :: rest => some (done.reverse, rest)
  | '\\' :: 'u' :: a :: b :: c :: d :: rest =>
    match hexFour? a b c d with
    | some n => stringFrom (n :: done) rest
    | none => none
  | '\\' :: c :: rest =>
    match escaped? c with
    | some n => stringFrom (n :: done) rest
    | none => none
  | c :: rest => if c.toNat < 0x20 then none else stringFrom (c.toNat :: done) rest

/-- The text of a list of code points, where a high surrogate and the low one after it make one
character. A surrogate without its other half makes no text. -/
def ofCodePoints? (done : List Char) : List Nat → Option (List Char)
  | [] => some done.reverse
  | hi :: lo :: rest =>
    if 0xd800 ≤ hi ∧ hi < 0xdc00 then
      if 0xdc00 ≤ lo ∧ lo < 0xe000 then
        ofCodePoints? (Char.ofNat (0x10000 + (hi - 0xd800) * 0x400 + (lo - 0xdc00)) :: done) rest
      else none
    else if 0xdc00 ≤ hi ∧ hi < 0xe000 then none
    else ofCodePoints? (Char.ofNat hi :: done) (lo :: rest)
  | [n] => if 0xd800 ≤ n ∧ n < 0xe000 then none else some (Char.ofNat n :: done).reverse

/-! ## Numbers -/

def isDigit (c : Char) : Bool := '0' ≤ c && c ≤ '9'

/-- A nonempty run of digits and what follows. -/
def digits? (cs : List Char) : Option (List Char × List Char) :=
  match cs.takeWhile isDigit with
  | [] => none
  | run => some (run, cs.dropWhile isDigit)

/-- A whole part: one zero, or digits that do not begin with zero. -/
def whole? : List Char → Option (List Char × List Char)
  | '0' :: rest => some (['0'], rest)
  | cs => digits? cs

def fraction? : List Char → Option (List Char × List Char)
  | '.' :: rest => (digits? rest).map fun (run, after) => ('.' :: run, after)
  | cs => some ([], cs)

def exponent? : List Char → Option (List Char × List Char)
  | e :: rest =>
    if e = 'e' ∨ e = 'E' then
      match rest with
      | '+' :: more => (digits? more).map fun (run, after) => (e :: '+' :: run, after)
      | '-' :: more => (digits? more).map fun (run, after) => (e :: '-' :: run, after)
      | _ => (digits? rest).map fun (run, after) => (e :: run, after)
    else some ([], e :: rest)
  | [] => some ([], [])

def number? (cs : List Char) : Option (List Char × List Char) := do
  let (sign, cs) := match cs with
    | '-' :: rest => (['-'], rest)
    | _ => ([], cs)
  let (whole, cs) ← whole? cs
  let (fraction, cs) ← fraction? cs
  let (exponent, cs) ← exponent? cs
  return (sign ++ whole ++ fraction ++ exponent, cs)

/-! ## Tokens -/

/-- The token that a text without leading blank space begins with, and what follows it. -/
def token? : List Char → Option (Token × List Char)
  | '\x7b' :: rest => some (.openBrace, rest)
  | '\x7d' :: rest => some (.closeBrace, rest)
  | '[' :: rest => some (.openBracket, rest)
  | ']' :: rest => some (.closeBracket, rest)
  | ':' :: rest => some (.colon, rest)
  | ',' :: rest => some (.comma, rest)
  | '"' :: rest =>
    (stringFrom [] rest).map fun (points, after) =>
      (.string ((ofCodePoints? [] points).map String.ofList), after)
  | 't' :: 'r' :: 'u' :: 'e' :: rest => some (.bool true, rest)
  | 'f' :: 'a' :: 'l' :: 's' :: 'e' :: rest => some (.bool false, rest)
  | 'n' :: 'u' :: 'l' :: 'l' :: rest => some (.null, rest)
  | cs => (number? cs).map fun (digits, after) => (.number (String.ofList digits), after)

/-- The tokens of a text of at most `n` characters, after those in `done`, which come last first. -/
def tokensFrom (done : List Token) : Nat → List Char → Option (List Token)
  | 0, cs => if cs.isEmpty then some done.reverse else none
  | n + 1, cs =>
    match cs.dropWhile isSpace with
    | [] => some done.reverse
    | c :: rest =>
      match token? (c :: rest) with
      | some (t, after) => tokensFrom (t :: done) n after
      | none => none

def tokens? (s : String) : Option (List Token) := tokensFrom [] s.toList.length s.toList

end CodeOutline.Json
