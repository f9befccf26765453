import CodeOutline.Text.Basic

/-!
# Brackets and quotes

Lists of types, parents and arguments are cut at separators that stand outside brackets and quotes.
`Nesting` is the state of a scan from left to right: how many brackets are open, and whether a
quote is. `splitTop` cuts where the scan is outside both.

Type arguments are removed with a simpler count, of square and angle brackets only.
-/

namespace CodeOutline

/-- Where a scan stands. -/
structure Nesting where
  /-- Brackets opened less brackets closed. -/
  depth : Int := 0
  quote : Option Char := none
  /-- Whether a backslash inside the quote has just taken the meaning of the next character. -/
  escaped : Bool := false
deriving DecidableEq

namespace Nesting

def isQuote (c : Char) : Bool := c == '"' || c == '\'' || c == '\x60'

def isOpener (angles : Bool) (c : Char) : Bool :=
  c == '(' || c == '[' || c == '\x7b' || (angles && c == '<')

def isCloser (angles : Bool) (c : Char) : Bool :=
  c == ')' || c == ']' || c == '\x7d' || (angles && c == '>')

/-- The scan after one more character. Angle brackets count if `angles` is set. -/
def step (angles : Bool) (n : Nesting) (c : Char) : Nesting :=
  match n.quote with
  | some q =>
    if n.escaped then { n with escaped := false }
    else if c = '\\' then { n with escaped := true }
    else if c = q then { n with quote := none }
    else n
  | none =>
    if isQuote c then { n with quote := some c }
    else if isOpener angles c then { n with depth := n.depth + 1 }
    else if isCloser angles c then { n with depth := n.depth - 1 }
    else n

/-- Whether the scan is outside brackets and quotes. -/
def isTop (n : Nesting) : Bool := n.quote.isNone && n.depth == 0

end Nesting

namespace Chars

/-- The pieces between the separators at the top, where the scan so far stands at `n`. Separators
are no brackets and no quotes, so it does not matter which of them is looked for first. -/
def splitTopFrom (sep : Char) (angles : Bool) (n : Nesting) : List Char → List (List Char)
  | [] => [[]]
  | c :: cs =>
    if c = sep ∧ n.isTop then [] :: splitTopFrom sep angles n cs
    else match splitTopFrom sep angles (n.step angles c) cs with
      | [] => [[c]]
      | piece :: rest => (c :: piece) :: rest

def splitTop (sep : Char) (angles : Bool) (cs : List Char) : List (List Char) :=
  splitTopFrom sep angles {} cs

/-- The characters outside square and angle brackets, of which `depth` are open. A bracket that
closes none is kept. -/
def outsideBrackets (depth : Nat) : List Char → List Char
  | [] => []
  | c :: cs =>
    if c = '<' ∨ c = '[' then outsideBrackets (depth + 1) cs
    else if (c = '>' ∨ c = ']') ∧ 0 < depth then outsideBrackets (depth - 1) cs
    else if depth = 0 then c :: outsideBrackets 0 cs
    else outsideBrackets depth cs

theorem length_of_mem_splitTopFrom {sep : Char} {angles : Bool} {n : Nesting} {cs piece : List Char}
    (h : piece ∈ splitTopFrom sep angles n cs) : piece.length ≤ cs.length := by
  induction cs generalizing n piece with
  | nil => simp_all [splitTopFrom]
  | cons c cs ih =>
    rw [splitTopFrom] at h
    split at h
    · rcases List.mem_cons.mp h with rfl | h
      · exact Nat.zero_le _
      · exact Nat.le_succ_of_le (ih h)
    · split at h
      · simp_all
      · next first rest heq =>
        rcases List.mem_cons.mp h with rfl | h
        · exact Nat.succ_le_succ (ih (heq ▸ List.mem_cons_self))
        · exact Nat.le_succ_of_le (ih (heq ▸ List.mem_cons_of_mem _ h))

end Chars

namespace Text

/-- The pieces of a text between the separators that stand outside brackets and quotes. -/
def splitTop (sep : Char) (angles : Bool) (s : String) : List String :=
  (Chars.splitTop sep angles s.toList).map String.ofList

/-- Without its lists of type arguments: `Box<T>` is `Box`, and `Generic[T]` is `Generic`. -/
def dropTypeArguments (s : String) : String :=
  trim (String.ofList (Chars.outsideBrackets 0 s.toList))

/-- The text of a string literal without its quotes. -/
def unquote (s : String) : String :=
  let s := trim s
  (["\"", "'", "\x60"].findSome? fun q => (afterStart? q s).bind (beforeEnd? q)).getD s

end Text

end CodeOutline
