/-!
# JSON values and tokens

A value keeps the order and the repeats of an object's keys, and a number as it is written. A
string whose escapes leave half of a surrogate pair alone is valid JSON but stands for no text; it
is held as `none`.

A value is spelled by tokens, which the writer lays out and the reader takes apart.
-/

namespace CodeOutline

inductive Json where
  | null
  | bool (value : Bool)
  /-- A number, by its digits. -/
  | number (digits : String)
  | string (text : Option String)
  | array (items : List Json)
  | object (entries : List (Option String × Json))

namespace Json

def text (s : String) : Json := .string (some s)

def nat (n : Nat) : Json := .number (toString n)

/-- A text, or `null`. -/
def text? : Option String → Json
  | some s => text s
  | none => .null

def record (entries : List (String × Json)) : Json :=
  .object (entries.map fun (key, value) => (some key, value))

/-- The value of the first entry with the given key. -/
def get? (key : String) : Json → Option Json
  | .object entries => (entries.find? fun e => e.1 == some key).map (·.2)
  | _ => none

inductive Token where
  | openBrace
  | closeBrace
  | openBracket
  | closeBracket
  | colon
  | comma
  /-- A string, which is a value or an object's key. -/
  | string (text : Option String)
  | number (digits : String)
  | bool (value : Bool)
  | null
deriving DecidableEq

end Json

end CodeOutline
