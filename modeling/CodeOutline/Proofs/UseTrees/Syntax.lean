import CodeOutline.Dialect.Rust

/-!
# Use trees

What a `use` declaration says, before any text is read: a tree whose inner nodes are groups of parts
in braces, and whose leaves are names or `*`, each behind a path and possibly renamed. A part may
also be missing, as after a trailing comma.

A tree says as well how it is written: which blanks and comments stand between its tokens. Blanks
may stand around commas, braces and `as`, but not beside a `::`; comments may stand anywhere. So
`chars` is a function of the tree, and all ways of writing one tree are trees of their own.

`leaves` lists the leaves in source order, each with the paths of the groups around it, and
`UseLeaf.import?` says what a leaf imports.
-/

namespace CodeOutline.Rust

open Text (isBlank)

/-- The separator of paths. -/
abbrev colons : List Char := "::".toList

/-! ## Names -/

/-- A character that the scan for commas passes over: no quote, no bracket and no comma. -/
def isLoose (c : Char) : Bool :=
  c ∉ ['"', '\'', '\x60', '(', '[', '\x7b', ')', ']', '\x7d', ',']

/-- A character that may stand in a name. -/
def isNameChar (c : Char) : Bool :=
  isLoose c && !isBlank c && c != ':' && c != '/' && c != '*'

structure Identifier where
  chars : List Char
  ne_nil : chars ≠ []
  isName : chars.all isNameChar = true
deriving DecidableEq

/-- The name that a text is. A text that is none stands for `_`. -/
def Identifier.ofText (s : String) : Identifier :=
  if h : s.toList ≠ [] ∧ s.toList.all isNameChar = true then ⟨s.toList, h.1, h.2⟩
  else ⟨['_'], by decide, by decide⟩

def Identifier.name (i : Identifier) : String := String.ofList i.chars

/-- The path through some names. -/
def pathText (names : List Identifier) : String := "::".intercalate (names.map Identifier.name)

/-! ## Gaps -/

/-- What follows a block comment of which `depth` levels are open. Comments may stand in one. -/
def afterBlock? : Nat → List Char → Option (List Char)
  | _, [] => none
  | depth, '*' :: '/' :: cs => if depth ≤ 1 then some cs else afterBlock? (depth - 1) cs
  | depth, '/' :: '*' :: cs => afterBlock? (depth + 1) cs
  | depth, _ :: cs => afterBlock? depth cs

inductive Comment
  /-- A comment that takes the rest of its line. -/
  | line (text : List Char) (h : '\n' ∉ text)
  /-- A comment that ends where it is closed, and not before. -/
  | block (text : List Char) (h : afterBlock? 1 (text ++ ['*', '/']) = some [])
deriving DecidableEq

def Comment.chars : Comment → List Char
  | line text _ => '/' :: '/' :: (text ++ ['\n'])
  | block text _ => '/' :: '*' :: (text ++ ['*', '/'])

/-- The text of some comments in a row. -/
def commentChars (comments : List Comment) : List Char := comments.flatMap Comment.chars

/-- A single thing that may stand between two tokens. -/
inductive Trivium
  | blank (c : Char) (h : isBlank c = true)
  | comment (c : Comment)
deriving DecidableEq

def Trivium.space : Trivium := blank ' ' rfl

def Trivium.chars : Trivium → List Char
  | blank c _ => [c]
  | comment c => c.chars

def Trivium.comment? : Trivium → Option Comment
  | blank _ _ => none
  | comment c => some c

/-- What stands between two tokens. -/
structure Gap where
  trivia : List Trivium := []
deriving DecidableEq

def Gap.chars (g : Gap) : List Char := g.trivia.flatMap Trivium.chars

def Gap.comments (g : Gap) : List Comment := g.trivia.filterMap Trivium.comment?

/-! ## Trees -/

/-- A name of a path and the `::` after it, with the comments before and after that. -/
structure Step where
  name : Identifier
  before : List Comment := []
  after : List Comment := []
deriving DecidableEq

def Step.chars (s : Step) : List Char :=
  s.name.chars ++ (commentChars s.before ++ (colons ++ commentChars s.after))

def Step.comments (s : Step) : List Comment := s.before ++ s.after

def pathChars (path : List Step) : List Char := path.flatMap Step.chars

/-- `as` and the new name. -/
structure Rename where
  before : Gap
  apart : before.trivia ≠ []
  after : Gap
  apart' : after.trivia ≠ []
  name : Identifier
deriving DecidableEq

/-- `as` and a name behind it, each after at least one thing. -/
def Rename.spaced (first : Trivium) (more : List Trivium) (first' : Trivium) (more' : List Trivium)
    (name : Identifier) : Rename :=
  ⟨⟨first :: more⟩, by simp, ⟨first' :: more'⟩, by simp, name⟩

def Rename.chars (r : Rename) : List Char :=
  r.before.chars ++ ('a' :: 's' :: (r.after.chars ++ r.name.chars))

def Rename.comments (r : Rename) : List Comment := r.before.comments ++ r.after.comments

/-- What a leaf names: one thing, or all there is. -/
inductive Target
  | one (name : Identifier)
  | all
deriving DecidableEq

def Target.chars : Target → List Char
  | one name => name.chars
  | all => ['*']

def Target.name (t : Target) : String := String.ofList t.chars

inductive UseTree
  | nothing (gap : Gap)
  | leaf (before : Gap) (path : List Step) (target : Target) (rename : Option Rename) (after : Gap)
  | group (before : Gap) (path : List Step) (parts : List UseTree) (after : Gap)

namespace UseTree

/-- Induction over use trees, with the hypothesis for every part of a group. -/
@[elab_as_elim, induction_eliminator]
theorem inductionOn {motive : UseTree → Prop} (nothing : ∀ gap, motive (.nothing gap))
    (leaf : ∀ before path target rename after, motive (.leaf before path target rename after))
    (group : ∀ before path parts after, (∀ p ∈ parts, motive p) →
      motive (.group before path parts after)) (t : UseTree) : motive t := by
  cases t with
  | nothing gap => exact nothing gap
  | leaf before path target rename after => exact leaf before path target rename after
  | group before path parts after =>
    exact group before path parts after fun p _ => inductionOn nothing leaf group p

mutual

/-- The tree as it is written. -/
def chars : UseTree → List Char
  | nothing gap => gap.chars
  | leaf before path target rename after =>
    before.chars ++ (pathChars path ++ (target.chars ++
      ((rename.map Rename.chars).getD [] ++ after.chars)))
  | group before path parts after =>
    before.chars ++ (pathChars path ++
      '\x7b' :: ([','].intercalate (charsOf parts) ++ '\x7d' :: after.chars))

def charsOf : List UseTree → List (List Char)
  | [] => []
  | t :: ts => t.chars :: charsOf ts

end

theorem charsOf_eq (ts : List UseTree) : charsOf ts = ts.map chars := by
  induction ts with
  | nil => rfl
  | cons t ts ih => rw [charsOf, ih, List.map_cons]

mutual

/-- All comments in a tree, in source order. -/
def comments : UseTree → List Comment
  | nothing gap => gap.comments
  | leaf before path _ rename after =>
    before.comments ++ (path.flatMap Step.comments ++
      ((rename.map Rename.comments).getD [] ++ after.comments))
  | group before path parts after =>
    before.comments ++ (path.flatMap Step.comments ++ (commentsOf parts ++ after.comments))

def commentsOf : List UseTree → List Comment
  | [] => []
  | t :: ts => t.comments ++ commentsOf ts

end

theorem commentsOf_eq (ts : List UseTree) : commentsOf ts = ts.flatMap comments := by
  induction ts with
  | nil => rfl
  | cons t ts ih => rw [commentsOf, ih, List.flatMap_cons]

/-- What stands before the first token of a tree. -/
def leading : UseTree → Gap
  | nothing gap => gap
  | leaf before _ _ _ _ => before
  | group before _ _ _ => before

end UseTree

/-! ## Leaves -/

/-- A leaf of a use tree: the names around it and its own path, what it names and the new name. -/
structure UseLeaf where
  above : List Identifier
  path : List Identifier
  target : Target
  asName : Option Identifier
deriving DecidableEq

/-- What a leaf imports. The name `self` alone stands for what is above it. -/
def UseLeaf.import? (l : UseLeaf) : Option Import :=
  let asName := l.asName.map Identifier.name
  if l.path = [] ∧ l.target.name = "self" then
    if l.above = [] then none else some (.whole (pathText l.above) asName)
  else if l.above ++ l.path = [] then some (.whole l.target.name asName)
  else some (.member (pathText (l.above ++ l.path)) l.target.name asName)

namespace UseTree

mutual

/-- The leaves of a tree in source order, where `above` are the names of the groups around it. -/
def leaves (above : List Identifier) : UseTree → List UseLeaf
  | nothing _ => []
  | leaf _ path target rename _ => [⟨above, path.map Step.name, target, rename.map Rename.name⟩]
  | group _ path parts _ => leavesOf (above ++ path.map Step.name) parts

def leavesOf (above : List Identifier) : List UseTree → List UseLeaf
  | [] => []
  | t :: ts => t.leaves above ++ leavesOf above ts

end

theorem leavesOf_eq (above : List Identifier) (ts : List UseTree) :
    leavesOf above ts = ts.flatMap (leaves above) := by
  induction ts with
  | nil => rfl
  | cons t ts ih => rw [leavesOf, ih, List.flatMap_cons]

end UseTree

/-- What follows the keyword: a tree, with or without a `::` before it. -/
structure UseClause where
  rooted : Bool
  tree : UseTree
  /-- Blanks do not stand beside a `::`. -/
  tight : rooted = true → ∀ x ∈ tree.leading.trivia, x.comment?.isSome

namespace UseClause

def chars (u : UseClause) : List Char := (if u.rooted then colons else []) ++ u.tree.chars

def text (u : UseClause) : String := String.ofList u.chars

def comments (u : UseClause) : List Comment := u.tree.comments

/-- The imports of all leaves, in source order. -/
def imports (u : UseClause) : List Import := (u.tree.leaves []).filterMap UseLeaf.import?

end UseClause

end CodeOutline.Rust
