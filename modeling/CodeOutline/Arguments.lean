import CodeOutline.Dictionary
import CodeOutline.Text.Alphanumeric
import CodeOutline.Text.Nesting

/-!
# Arguments of marks

The arguments written after an attribute or decorator, as a dictionary. A named argument, `x = 1` or
`x: 1`, goes by its name and a positional one by its place among the positional ones, counted from
zero.
-/

namespace CodeOutline

inductive Argument where
  | named (name value : String)
  | positional (value : String)
deriving DecidableEq

namespace Argument

/-- Letters, digits and underscores. -/
def inName (c : Char) : Bool := Text.isAlphanumeric c || c == '_'

/-- The longest name that a text begins with. A dollar sign may begin it. -/
def leadingName : List Char → List Char
  | [] => []
  | c :: cs => if inName c || c == '$' then c :: cs.takeWhile inName else []

/-- The value after an equals sign or colon, which no operator such as `==`, `=>` or `::` may
begin. -/
def assigned? : List Char → Option (List Char)
  | '=' :: '=' :: _ => none
  | '=' :: '>' :: _ => none
  | ':' :: ':' :: _ => none
  | '=' :: value => some value
  | ':' :: value => some value
  | _ => none

/-- The name and value of a named argument. -/
def named? (text : String) : Option (String × String) :=
  let name := leadingName text.toList
  match name with
  | [] => none
  | c :: _ =>
    if Text.isAsciiDigit c then none
    else (assigned? ((text.toList.drop name.length).dropWhile Text.isBlank)).map fun value =>
      (String.ofList name, Text.trim (String.ofList value))

def ofText (text : String) : Argument :=
  match named? text with
  | some (name, value) => named name (Text.unquote value)
  | none => positional (Text.unquote text)

/-- The arguments of a list, whose parentheses may be left out. -/
def list (text : String) : List Argument :=
  let text := Text.trim text
  let inner := ((Text.afterStart? "(" text).bind (Text.beforeEnd? ")")).getD text
  (((Text.splitTop ',' false inner).map Text.trim).filter fun s => !s.isEmpty).map ofText

/-- The entries of a list of arguments, where `next` is the place of the next positional one. -/
def entriesFrom (next : Nat) : List Argument → List (String × String)
  | [] => []
  | named name value :: rest => (name, value) :: entriesFrom next rest
  | positional value :: rest => (toString next, value) :: entriesFrom (next + 1) rest

/-- The dictionary of a list of arguments. A single positional argument goes by the name `single`,
if one is given. -/
def dictionary (text : String) (single : Option String := none) : Dictionary :=
  match single, list text with
  | some key, [positional value] => Dictionary.ofList [(key, value)]
  | _, arguments => Dictionary.ofList (entriesFrom 0 arguments)

end Argument

end CodeOutline
