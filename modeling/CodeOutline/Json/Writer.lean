import CodeOutline.Json.Basic

/-!
# Writing JSON

A value is written as its tokens with blank space between some of them. A `Layout` says which:
`Layout.compact` leaves all of it out, `Layout.indented` puts each item of a container on a line of
its own, two spaces further in than the container. Only quotes, backslashes and control characters
are escaped.
-/

namespace CodeOutline.Json

/-! ## Spelling -/

def hexDigit (n : Nat) : Char := Char.ofNat (if n < 10 then 0x30 + n else 0x57 + n)

def escape (c : Char) : List Char :=
  if c = '"' then ['\\', '"']
  else if c = '\\' then ['\\', '\\']
  else if 0x20 ≤ c.toNat then [c]
  else if c.toNat = 0x08 then ['\\', 'b']
  else if c = '\t' then ['\\', 't']
  else if c = '\n' then ['\\', 'n']
  else if c.toNat = 0x0c then ['\\', 'f']
  else if c = '\r' then ['\\', 'r']
  else ['\\', 'u', '0', '0', hexDigit (c.toNat / 16), hexDigit (c.toNat % 16)]

def quote (s : String) : String := String.ofList ('"' :: (s.toList.flatMap escape ++ ['"']))

namespace Token

/-- The spelling of a token. A string that stands for no text is written as an empty one. -/
def spell : Token → String
  | openBrace => "\x7b"
  | closeBrace => "\x7d"
  | openBracket => "["
  | closeBracket => "]"
  | colon => ":"
  | comma => ","
  | string text => quote (text.getD "")
  | number digits => digits
  | bool true => "true"
  | bool false => "false"
  | null => "null"

end Token

/-! ## Layout -/

/-- A token, or blank space between tokens. -/
inductive Piece where
  | token (t : Token)
  | space (s : String)

def Piece.spell : Piece → String
  | token t => t.spell
  | space s => s

/-- The blank space of a written value. -/
structure Layout where
  /-- Before an item at the given depth, and before the end of a container. -/
  newline : Nat → List Piece
  /-- Between a colon and the value after it. -/
  afterColon : List Piece

namespace Layout

def compact : Layout where
  newline _ := []
  afterColon := []

def indented : Layout where
  newline depth := [.space (String.ofList ('\n' :: List.replicate (2 * depth) ' '))]
  afterColon := [.space " "]

mutual

/-- The pieces of a value that stands at the given depth. -/
def pieces (style : Layout) (depth : Nat) : Json → List Piece
  | .null => [.token .null]
  | .bool value => [.token (.bool value)]
  | .number digits => [.token (.number digits)]
  | .string text => [.token (.string text)]
  | .array [] => [.token .openBracket, .token .closeBracket]
  | .array (item :: items) =>
    .token .openBracket :: style.newline (depth + 1) ++ style.pieces (depth + 1) item
      ++ style.itemPieces (depth + 1) items ++ style.newline depth ++ [.token .closeBracket]
  | .object [] => [.token .openBrace, .token .closeBrace]
  | .object ((key, value) :: entries) =>
    .token .openBrace :: style.newline (depth + 1)
      ++ .token (.string key) :: .token .colon :: style.afterColon
      ++ style.pieces (depth + 1) value ++ style.entryPieces (depth + 1) entries
      ++ style.newline depth ++ [.token .closeBrace]

/-- The pieces of an array's items after the first. -/
def itemPieces (style : Layout) (depth : Nat) : List Json → List Piece
  | [] => []
  | item :: items =>
    .token .comma :: style.newline depth ++ style.pieces depth item
      ++ style.itemPieces depth items

/-- The pieces of an object's entries after the first. -/
def entryPieces (style : Layout) (depth : Nat) : List (Option String × Json) → List Piece
  | [] => []
  | (key, value) :: entries =>
    .token .comma :: style.newline depth
      ++ .token (.string key) :: .token .colon :: style.afterColon
      ++ style.pieces depth value ++ style.entryPieces depth entries

end

end Layout

def write (style : Layout) (value : Json) : String :=
  String.join ((style.pieces 0 value).map Piece.spell)

def compact (value : Json) : String := write .compact value

def indented (value : Json) : String := write .indented value

end CodeOutline.Json
