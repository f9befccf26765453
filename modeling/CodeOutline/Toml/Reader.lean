import CodeOutline.Toml.Lexer
import CodeOutline.Toml.Scalar

/-!
# Reading TOML

A document is a list of statements, each on lines of its own: a header, a header in double brackets,
or a value under a key. `Toml.parse?` gives the table of a document that follows the rules.

The functions below have a bound `n` on the number of steps. Twice the number of tokens is enough,
since of two steps one uses up a token.
-/

namespace CodeOutline.Toml

def dropSpace : List Token → List Token
  | .space _ :: rest => rest
  | ts => ts

/-- Without blank space and line ends at the front. -/
def dropLines (ts : List Token) : List Token :=
  ts.dropWhile fun t => match t with
    | .space _ | .lineEnd => true
    | _ => false

/-! ## Keys -/

def isKeyChar (c : Char) : Bool := c.isAlphanum || c == '_' || c == '-'

def key? : Token → Option String
  | .bare text => if text.toList.all isKeyChar then some text else none
  | .string false text => some text
  | _ => none

/-- A dotted key with blank space around its parts: the path to a table, the last part, and what
follows. -/
def keyPath? : Nat → List Token → Option (List String × String × List Token)
  | 0, _ => none
  | n + 1, ts =>
    match dropSpace ts with
    | [] => none
    | t :: rest => do
      let key ← key? t
      match dropSpace rest with
      | .dot :: rest =>
        let (path, last, rest) ← keyPath? n rest
        return (key :: path, last, rest)
      | rest => return ([], key, rest)

/-! ## Values -/

/-- The characters of a run of bare tokens and dots, and what follows. -/
def run : List Token → List Char × List Token
  | .bare text :: rest => let (cs, after) := run rest; (text.toList ++ cs, after)
  | .dot :: rest => let (cs, after) := run rest; ('.' :: cs, after)
  | ts => ([], ts)

/-- A value without quotes and brackets. One space may divide a date from a time. -/
def scalarAt? (ts : List Token) : Option (Value × List Token) :=
  let (cs, rest) := run ts
  match rest with
  | .space " " :: .bare text :: after =>
    if isDate cs then
      let (time, after) := run (.bare text :: after)
      (scalar? (cs ++ ' ' :: time)).map fun v => (v, after)
    else (scalar? cs).map fun v => (v, rest)
  | _ => (scalar? cs).map fun v => (v, rest)

/-- How deep arrays and inline tables may be nested. -/
def maxNesting : Nat := 80

mutual

/-- The value that the tokens begin with, and what follows. -/
def value? : (n : Nat) → (levels : Nat) → List Token → Option (Value × List Token)
  | 0, _, _ => none
  | n + 1, levels, ts =>
    match ts, levels with
    | .string _ text :: rest, _ => some (.string text, rest)
    | .openBracket :: rest, levels + 1 => items? n levels [] rest
    | .openBrace :: rest, levels + 1 => entries? n levels (.inline, []) rest
    | .bare text :: rest, _ => scalarAt? (.bare text :: rest)
    | _, _ => none

/-- The items of an array after those in `done`, which come last first. -/
def items? : (n : Nat) → (levels : Nat) → List Value → List Token → Option (Value × List Token)
  | 0, _, _, _ => none
  | n + 1, levels, done, ts =>
    match dropLines ts with
    | .closeBracket :: rest => some (.array done.reverse, rest)
    | ts => do
      let (item, rest) ← value? n levels ts
      match dropLines rest with
      | .comma :: rest => items? n levels (item :: done) rest
      | .closeBracket :: rest => return (.array (item :: done).reverse, rest)
      | _ => none

/-- The entries of an inline table after those in `table`. -/
def entries? : (n : Nat) → (levels : Nat) → Table → List Token → Option (Value × List Token)
  | 0, _, _, _ => none
  | n + 1, levels, table, ts =>
    match dropLines ts with
    | .closeBrace :: rest => some (.table .inline table.2, rest)
    | ts => do
      let (path, key, rest) ← keyPath? n ts
      match rest with
      | .equals :: rest =>
        let (value, rest) ← value? n levels (dropSpace rest)
        let table ← insert path key value table
        match dropLines rest with
        | .comma :: rest => entries? n levels table rest
        | .closeBrace :: rest => return (.table .inline table.2, rest)
        | _ => none
      | _ => none

end

/-! ## Documents -/

/-- What has been read: the table so far, and the header that values are added under. -/
structure Document where
  table : Table := (.header, [])
  header : List String := []

namespace Document

/-- What follows the end of a line. -/
def afterLine? (ts : List Token) : Option (List Token) :=
  match dropSpace ts with
  | [] => some []
  | .lineEnd :: rest => some rest
  | _ => none

/-- Reads a header, after its opening brackets. -/
def header? (d : Document) (double : Bool) (ts : List Token) :
    Option (Document × List Token) := do
  let (path, key, rest) ← keyPath? ts.length ts
  let (table, rest) ← match double, rest with
    | true, .closeBracket :: .closeBracket :: rest => (addTable path key d.table).map (·, rest)
    | false, .closeBracket :: rest => (openTable path key d.table).map (·, rest)
    | _, _ => none
  return ({ table, header := path ++ [key] }, rest)

/-- Reads a value under a key. -/
def assignment? (d : Document) (ts : List Token) : Option (Document × List Token) := do
  let (path, key, rest) ← keyPath? ts.length ts
  match rest with
  | .equals :: rest =>
    let (value, rest) ← value? (2 * rest.length) maxNesting (dropSpace rest)
    let table ← alter false (insert path key value) d.header d.table
    return ({ d with table }, rest)
  | _ => none

/-- Reads the statements of a document. -/
def statements? : Nat → Document → List Token → Option Document
  | 0, d, ts => if (dropLines ts).isEmpty then some d else none
  | n + 1, d, ts =>
    match dropLines ts with
    | [] => some d
    | ts => do
      let (d, rest) ← match ts with
        | .openBracket :: .openBracket :: rest => d.header? true rest
        | .openBracket :: rest => d.header? false rest
        | _ => d.assignment? ts
      statements? n d (← afterLine? rest)

end Document

/-- The entries of a document. -/
def parse? (text : String) : Option Entries := do
  let ts ← tokens? text
  let d ← Document.statements? ts.length {} ts
  return d.table.2

end CodeOutline.Toml
