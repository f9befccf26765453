import CodeOutline.Json.Lexer
import CodeOutline.Text.Chars

/-!
# The tokens of a TOML text

Strings are read as a whole and comments are left out. A run of other characters, such as a number
or a key without quotes, is one token up to a dot; what it means is the reader's question, and so is
where blank space may stand. A carriage return stands only before a line feed, and other control
characters except the tab stand nowhere.
-/

namespace CodeOutline.Toml

inductive Token where
  /-- A run of characters without a meaning of their own. -/
  | bare (text : String)
  /-- A string, with three quotes if it is `long`. -/
  | string (long : Bool) (text : String)
  | dot
  | equals
  | comma
  | openBracket
  | closeBracket
  | openBrace
  | closeBrace
  | lineEnd
  | space (text : String)
deriving DecidableEq

def isSpace (c : Char) : Bool := c == ' ' || c == '\t'

def isControl (c : Char) : Bool := (c.toNat < 0x20 && c != '\t') || c.toNat == 0x7f

/-! ## Strings -/

/-- What a one-letter escape stands for. -/
def escaped? (c : Char) : Option Char :=
  if c = '"' then some '"'
  else if c = '\\' then some '\\'
  else if c = 'b' then some '\x08'
  else if c = 'e' then some '\x1b'
  else if c = 'f' then some '\x0c'
  else if c = 'n' then some '\n'
  else if c = 'r' then some '\r'
  else if c = 't' then some '\t'
  else none

/-- The character whose number is spelled by hexadecimal digits. -/
def hexChar? (digits : List Char) : Option Char := do
  let n ← digits.foldlM (fun n c => (Json.hexValue? c).map (16 * n + ·)) 0
  if n.isValidChar then some (Char.ofNat n) else none

/-- A string in double quotes up to the closing one, and what follows. -/
def basicFrom (done : List Char) : List Char → Option (List Char × List Char)
  | [] => none
  | '"' :: rest => some (done.reverse, rest)
  | '\\' :: 'x' :: a :: b :: rest =>
    (hexChar? [a, b]).bind fun c => basicFrom (c :: done) rest
  | '\\' :: 'u' :: a :: b :: c :: d :: rest =>
    (hexChar? [a, b, c, d]).bind fun c => basicFrom (c :: done) rest
  | '\\' :: 'U' :: a :: b :: c :: d :: e :: f :: g :: h :: rest =>
    (hexChar? [a, b, c, d, e, f, g, h]).bind fun c => basicFrom (c :: done) rest
  | '\\' :: c :: rest => (escaped? c).bind fun c => basicFrom (c :: done) rest
  | c :: rest => if isControl c then none else basicFrom (c :: done) rest

/-- Whether nothing but blank space stands before the end of the line. -/
def endsLine (cs : List Char) : Bool :=
  match cs.dropWhile isSpace with
  | '\n' :: _ => true
  | '\r' :: '\n' :: _ => true
  | _ => false

/-- A string in three double quotes up to the closing ones, which one or two quotes of its own may
precede. A backslash at the end of a line drops the blank space up to the next text; `skip` says
that this goes on. -/
def longBasicFrom (skip : Bool) (done : List Char) : List Char → Option (List Char × List Char)
  | [] => none
  | '"' :: '"' :: '"' :: '"' :: '"' :: rest => some (('"' :: '"' :: done).reverse, rest)
  | '"' :: '"' :: '"' :: '"' :: rest => some (('"' :: done).reverse, rest)
  | '"' :: '"' :: '"' :: rest => some (done.reverse, rest)
  | '\\' :: 'x' :: a :: b :: rest =>
    (hexChar? [a, b]).bind fun c => longBasicFrom false (c :: done) rest
  | '\\' :: 'u' :: a :: b :: c :: d :: rest =>
    (hexChar? [a, b, c, d]).bind fun c => longBasicFrom false (c :: done) rest
  | '\\' :: 'U' :: a :: b :: c :: d :: e :: f :: g :: h :: rest =>
    (hexChar? [a, b, c, d, e, f, g, h]).bind fun c => longBasicFrom false (c :: done) rest
  | '\\' :: c :: rest =>
    match escaped? c with
    | some e => longBasicFrom false (e :: done) rest
    | none => if endsLine (c :: rest) then longBasicFrom true done (c :: rest) else none
  | '\r' :: '\n' :: rest => longBasicFrom skip (if skip then done else '\n' :: done) rest
  | c :: rest =>
    if isSpace c || c == '\n' then longBasicFrom skip (if skip then done else c :: done) rest
    else if isControl c then none
    else longBasicFrom false (c :: done) rest

/-- A string in single quotes up to the closing one, and what follows. -/
def literalFrom (done : List Char) : List Char → Option (List Char × List Char)
  | [] => none
  | '\'' :: rest => some (done.reverse, rest)
  | c :: rest => if isControl c then none else literalFrom (c :: done) rest

/-- A string in three single quotes up to the closing ones. -/
def longLiteralFrom (done : List Char) : List Char → Option (List Char × List Char)
  | [] => none
  | '\'' :: '\'' :: '\'' :: '\'' :: '\'' :: rest => some (('\'' :: '\'' :: done).reverse, rest)
  | '\'' :: '\'' :: '\'' :: '\'' :: rest => some (('\'' :: done).reverse, rest)
  | '\'' :: '\'' :: '\'' :: rest => some (done.reverse, rest)
  | '\r' :: '\n' :: rest => longLiteralFrom ('\n' :: done) rest
  | c :: rest =>
    if isControl c && c != '\n' then none else longLiteralFrom (c :: done) rest

/-- Without the line end that a long string may begin with. -/
def dropLineEnd : List Char → List Char
  | '\n' :: rest => rest
  | '\r' :: '\n' :: rest => rest
  | cs => cs

/-! ## Tokens -/

def isBare (c : Char) : Bool :=
  !isControl c && !([' ', '\t', '.', '=', ',', '[', ']', '\x7b', '\x7d', '#', '"', '\''].contains c)

def stringToken (long : Bool) (read : List Char × List Char) : Token × List Char :=
  (.string long (String.ofList read.1), read.2)

/-- The token that a text begins with, and what follows it. -/
def token? : List Char → Option (Token × List Char)
  | [] => none
  | '\n' :: rest => some (.lineEnd, rest)
  | '\r' :: '\n' :: rest => some (.lineEnd, rest)
  | '.' :: rest => some (.dot, rest)
  | '=' :: rest => some (.equals, rest)
  | ',' :: rest => some (.comma, rest)
  | '[' :: rest => some (.openBracket, rest)
  | ']' :: rest => some (.closeBracket, rest)
  | '\x7b' :: rest => some (.openBrace, rest)
  | '\x7d' :: rest => some (.closeBrace, rest)
  | '"' :: '"' :: '"' :: rest =>
    (longBasicFrom false [] (dropLineEnd rest)).map (stringToken true)
  | '"' :: rest => (basicFrom [] rest).map (stringToken false)
  | '\'' :: '\'' :: '\'' :: rest => (longLiteralFrom [] (dropLineEnd rest)).map (stringToken true)
  | '\'' :: rest => (literalFrom [] rest).map (stringToken false)
  | c :: rest =>
    if isSpace c then
      some (.space (String.ofList (c :: rest.takeWhile isSpace)), rest.dropWhile isSpace)
    else if isBare c then
      some (.bare (String.ofList (c :: rest.takeWhile isBare)), rest.dropWhile isBare)
    else none

/-- The tokens of a text of at most `n` characters, after those in `done`, which come last first. -/
def tokensFrom (done : List Token) : Nat → List Char → Option (List Token)
  | 0, cs => if cs.isEmpty then some done.reverse else none
  | n + 1, cs =>
    match cs with
    | [] => some done.reverse
    | '#' :: rest => tokensFrom done n (rest.dropWhile fun c => !isControl c)
    | _ => (token? cs).bind fun (t, after) => tokensFrom (t :: done) n after

/-- The tokens of a text, which may begin with a byte order mark. -/
def tokens? (s : String) : Option (List Token) :=
  let cs := match s.toList with
    | '\ufeff' :: rest => rest
    | cs => cs
  tokensFrom [] cs.length cs

end CodeOutline.Toml
