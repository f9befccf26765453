import CodeOutline.Json.Lexer

/-!
# Reading JSON

A machine that takes one token at a time. It holds the containers that are still open, innermost
first, and knows what may come next. The work per token is bounded and no recursion follows the
nesting, so a text may nest as deep as it likes.
-/

namespace CodeOutline.Json

/-- A container that is still open, with what it holds so far, last first. -/
inductive Frame where
  | array (items : List Json)
  | object (entries : List (Option String × Json))
  /-- An object whose last key waits for its value. -/
  | entry (key : Option String) (entries : List (Option String × Json))

/-- What the next token may be. -/
inductive Expected where
  | value
  /-- A value, or the end of the array just opened. -/
  | firstItem
  | key
  /-- A key, or the end of the object just opened. -/
  | firstKey
  | colon
  /-- A comma, or the end of the innermost container. -/
  | afterItem
deriving DecidableEq

inductive Machine where
  | reading (expected : Expected) (frames : List Frame)
  | finished (value : Json)

namespace Machine

/-- Hands a finished value to the innermost container. -/
def give (value : Json) : List Frame → Option Machine
  | [] => some (finished value)
  | .array items :: outer => some (reading .afterItem (.array (value :: items) :: outer))
  | .entry key entries :: outer =>
    some (reading .afterItem (.object ((key, value) :: entries) :: outer))
  | .object _ :: _ => none

/-- A token where a value may begin. -/
def begin (frames : List Frame) : Token → Option Machine
  | .openBracket => some (reading .firstItem (.array [] :: frames))
  | .openBrace => some (reading .firstKey (.object [] :: frames))
  | .string text => give (.string text) frames
  | .number digits => give (.number digits) frames
  | .bool value => give (.bool value) frames
  | .null => give .null frames
  | _ => none

def takeKey (token : Token) : List Frame → Option Machine
  | .object entries :: outer =>
    match token with
    | .string key => some (reading .colon (.entry key entries :: outer))
    | _ => none
  | _ => none

def step : Machine → Token → Option Machine
  | finished _, _ => none
  | reading .value frames, token => begin frames token
  | reading .firstItem frames, token =>
    match token, frames with
    | .closeBracket, .array items :: outer => give (.array items.reverse) outer
    | _, _ => begin frames token
  | reading .key frames, token => takeKey token frames
  | reading .firstKey frames, token =>
    match token, frames with
    | .closeBrace, .object entries :: outer => give (.object entries.reverse) outer
    | _, _ => takeKey token frames
  | reading .colon frames, token =>
    match token with
    | .colon => some (reading .value frames)
    | _ => none
  | reading .afterItem frames, token =>
    match token, frames with
    | .comma, .array items :: outer => some (reading .value (.array items :: outer))
    | .comma, .object entries :: outer => some (reading .key (.object entries :: outer))
    | .closeBracket, .array items :: outer => give (.array items.reverse) outer
    | .closeBrace, .object entries :: outer => give (.object entries.reverse) outer
    | _, _ => none

def run (m : Machine) (tokens : List Token) : Option Machine := tokens.foldlM step m

end Machine

/-- The value that a list of tokens spells. -/
def ofTokens? (tokens : List Token) : Option Json :=
  match (Machine.reading .value []).run tokens with
  | some (.finished value) => some value
  | _ => none

/-- The value that a text spells. -/
def parse? (s : String) : Option Json := (tokens? s).bind ofTokens?

end CodeOutline.Json
