import CodeOutline.Dialect.Php

/-!
# Clauses of use declarations

What a `use` declaration of PHP says, before any text is read: clauses, each a path to a name that
may be renamed. They stand in a list, or in braces behind a path that they share. The word
`function` or `const` may stand before all of them, or before one in braces.

A declaration says as well how it is written: how many backslashes come first, and which blanks
stand between its tokens. So `text` is a function of the declaration, and `imports` lists what its
clauses import.

`Legible` says of a declaration that nothing in it can be mistaken. A word for a kind has a space
behind it, and no clause looks as if it began with such a word.
-/

namespace CodeOutline.Php

open Text (isBlank)

/-! ## Names and blanks -/

/-- A character that may stand in a name: no blank, no quote, no bracket and no other mark. -/
def isNameChar (c : Char) : Bool :=
  !isBlank c && c ∉ ['\\', ',', ';', '\x7b', '\x7d', '[', ']', '(', ')', '"', '\'', '\x60']

structure Identifier where
  chars : List Char
  ne_nil : chars ≠ []
  isName : chars.all isNameChar = true

/-- The name that a text is. A text that is none stands for `x`. -/
def Identifier.ofText (s : String) : Identifier :=
  if h : s.toList ≠ [] ∧ s.toList.all isNameChar = true then ⟨s.toList, h.1, h.2⟩
  else ⟨['x'], by decide, by decide⟩

def Identifier.text (i : Identifier) : String := String.ofList i.chars

/-- The path through some names. -/
def pathText (names : List Identifier) : String := "\\".intercalate (names.map Identifier.text)

/-- Names, each with the backslash after it. -/
def stem (names : List Identifier) : List Char := names.flatMap fun i => i.chars ++ ['\\']

/-- Backslashes in a row. -/
def backslashes (n : Nat) : List Char := List.replicate n '\\'

/-- What may stand between two tokens. -/
structure Blanks where
  chars : List Char
  allBlank : chars.all isBlank = true

/-- The blanks of a text. -/
def Blanks.ofText (s : String) : Blanks :=
  ⟨s.toList.filter isBlank, List.all_eq_true.mpr fun _ hc => (List.mem_filter.mp hc).2⟩

/-! ## Clauses -/

/-- What kind of names are imported, if not classes. -/
inductive ImportKind
  | function
  | const
deriving DecidableEq

def ImportKind.word : ImportKind → List Char
  | function => "function".toList
  | const => "const".toList

/-- The word for a kind, with a blank behind it. -/
structure KindWord where
  kind : ImportKind
  blank : Char
  isBlank : isBlank blank = true
  more : Blanks

def KindWord.ofText (kind : ImportKind) (blank : Char) : KindWord :=
  if h : Text.isBlank blank = true then ⟨kind, blank, h, Blanks.ofText ""⟩
  else ⟨kind, ' ', by decide, Blanks.ofText ""⟩

def KindWord.chars (k : KindWord) : List Char := k.kind.word ++ k.blank :: k.more.chars

/-- The word has a space behind it. -/
def KindWord.Spaced (k : KindWord) : Prop := k.blank = ' '

structure Clause where
  path : List Identifier
  name : Identifier
  rename : Option Identifier

namespace Clause

/-- The path and the name. -/
def core (c : Clause) : List Char := stem c.path ++ c.name.chars

/-- The new name, with what stands before it. -/
def asChars (c : Clause) : List Char := (c.rename.map fun i => " as ".toList ++ i.chars).getD []

def chars (c : Clause) : List Char := c.core ++ c.asChars

/-- What a clause imports below the path `above`. -/
def imported (above : List Identifier) (c : Clause) : Import :=
  let asName := c.rename.map Identifier.text
  if above ++ c.path = [] then .whole c.name.text asName
  else .member (pathText (above ++ c.path)) c.name.text asName

/-- Nothing but a word for a kind. -/
def IsWord (c : Clause) : Prop := c.path = [] ∧ ∃ k : ImportKind, c.name.chars = k.word

/-- The clause does not look like a word for a kind and a clause behind it. -/
def Clear (c : Clause) : Prop := c.IsWord → c.rename = none

end Clause

/-- A clause of a list, which may begin with backslashes. -/
structure ListClause where
  before : Blanks
  slashes : Nat
  clause : Clause
  after : Blanks

namespace ListClause

/-- The clause without the blanks around it. -/
def inner (c : ListClause) : List Char := backslashes c.slashes ++ c.clause.chars

def chars (c : ListClause) : List Char := c.before.chars ++ (c.inner ++ c.after.chars)

def Clear (c : ListClause) : Prop := c.slashes = 0 → c.clause.Clear

end ListClause

/-- A clause in braces, which may begin with a word for its kind. -/
structure GroupClause where
  before : Blanks
  kind : Option KindWord
  clause : Clause
  after : Blanks

namespace GroupClause

def inner (c : GroupClause) : List Char :=
  (c.kind.map KindWord.chars).getD [] ++ c.clause.chars

def chars (c : GroupClause) : List Char := c.before.chars ++ (c.inner ++ c.after.chars)

def Clear (c : GroupClause) : Prop :=
  match c.kind with
  | none => c.clause.Clear
  | some k => k.Spaced

end GroupClause

/-! ## Declarations -/

inductive UseBody
  | list (kind : Option KindWord) (first : ListClause) (more : List ListClause)
  /-- Clauses in braces. There may be a comma after the last one. -/
  | group (kind : Option KindWord) (slashes : Nat) (path : List Identifier) (gap : Blanks)
      (clauses : List GroupClause) (trailing : Option Blanks)

namespace UseBody

/-- What stands between the braces of a group. -/
def groupChars (clauses : List GroupClause) (trailing : Option Blanks) : List Char :=
  [','].intercalate (clauses.map GroupClause.chars ++ trailing.toList.map Blanks.chars)

/-- What stands before the braces of a group, after the word for a kind. -/
def rootChars (slashes : Nat) (path : List Identifier) (gap : Blanks) : List Char :=
  backslashes slashes ++ (stem path ++ gap.chars)

/-- The body without the word for a kind. -/
def restChars : UseBody → List Char
  | list _ first more => [','].intercalate (first.chars :: more.map ListClause.chars)
  | group _ slashes path gap clauses trailing =>
    rootChars slashes path gap ++ '\x7b' :: (groupChars clauses trailing ++ ['\x7d'])

def kind : UseBody → Option KindWord
  | list kind _ _ => kind
  | group kind _ _ _ _ _ => kind

def chars (b : UseBody) : List Char := (b.kind.map KindWord.chars).getD [] ++ b.restChars

/-- One import for each clause, in order. -/
def imports : UseBody → List Import
  | list _ first more => (first :: more).map fun c => c.clause.imported []
  | group _ _ path _ clauses _ => clauses.map fun c => c.clause.imported path

/-- Every word for a kind has a space behind it, and nothing else looks like such a word. Without a
word before a list, the first clause must not look like one together with what comes after it. -/
def Legible : UseBody → Prop
  | list none first more =>
    (first.slashes = 0 → first.clause.IsWord → first.clause.rename = none ∧
      (more = [] ∨ first.after.chars.head? ≠ some ' ')) ∧ ∀ c ∈ more, c.Clear
  | list (some k) first more => k.Spaced ∧ ∀ c ∈ first :: more, c.Clear
  | group kind _ _ _ clauses _ =>
    (clauses ≠ [] → ∀ k ∈ kind, k.Spaced) ∧ ∀ c ∈ clauses, c.Clear

end UseBody

structure UseDeclaration where
  gap : Blanks
  body : UseBody
  after : Blanks
  /-- Whether a semicolon ends the declaration. -/
  ended : Bool

namespace UseDeclaration

def stop (d : UseDeclaration) : List Char := if d.ended then [';'] else []

def chars (d : UseDeclaration) : List Char :=
  "use".toList ++ (d.gap.chars ++ (d.body.chars ++ (d.after.chars ++ d.stop)))

def text (d : UseDeclaration) : String := String.ofList d.chars

def imports (d : UseDeclaration) : List Import := d.body.imports

def Legible (d : UseDeclaration) : Prop := d.body.Legible

end UseDeclaration

end CodeOutline.Php
