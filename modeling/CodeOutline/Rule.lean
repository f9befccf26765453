import CodeOutline.Arguments
import CodeOutline.Outline.Basic
import CodeOutline.Tree.Cursor

/-!
# Rules of declaration

What a language declares is given by a rule: for a node and the declarations around it, the rule
lists what the node declares and the places below it where to look on. `explore` applies a rule to
all children of a place, and again at each place the rule names. `ERROR` nodes are left out.

The order of a rule's items is the order of what is found, so a rule that lists a declaration before
its members yields a list in source order.
-/

namespace CodeOutline

/-- What kind of declaration is around a place. -/
inductive Container where
  | file
  | type
  | routine
deriving DecidableEq

/-- The declarations around a place. -/
structure Scope where
  /-- Their names, outermost first. -/
  path : List String := []
  container : Container := .file
deriving DecidableEq

namespace Scope

/-- The full name of something declared here. -/
def qualify (s : Scope) (name : String) : String := ".".intercalate (s.path ++ [name])

/-- The scope inside a declaration. -/
def inside (s : Scope) (name : String) (container : Container) : Scope :=
  { path := s.path ++ [name], container }

end Scope

/-- A symbol with the bytes that its declaration covers. -/
structure Declared where
  symbol : Symbol
  /-- The name that the declaration itself gives, without those around it. -/
  leaf : String
  start : Nat
  stop : Nat
deriving DecidableEq

inductive Finding where
  | symbol (declared : Declared)
  | imported (i : Import)
  | inheritance (i : Inheritance)
  /-- The name of a package or namespace. -/
  | package (name : String)
deriving DecidableEq

/-- What a rule lists: something found, or a place to look on with the scope there. -/
inductive Item where
  | found (finding : Finding)
  | enter (place : Cursor) (scope : Scope)

abbrev Rule := Scope → Cursor → List Item

namespace Rule

/-- What a rule finds below a place, going down at most `levels` levels. -/
def explore (rule : Rule) : Nat → Scope → Cursor → List Finding
  | 0, _, _ => []
  | levels + 1, scope, place =>
    place.children.flatMap fun child =>
      if child.node.isError then []
      else (rule scope child).flatMap fun item =>
        match item with
        | .found finding => [finding]
        | .enter inner innerScope => explore rule levels innerScope inner

/-- What a rule finds in a tree. -/
def findings (rule : Rule) (t : Tree) : List Finding :=
  rule.explore t.height {} (Cursor.root t)

end Rule

namespace Item

/-- A symbol that is declared by the node `span`. -/
def declare (src : String) (span : Tree) (scope : Scope) (leaf : String) (kind : SymbolKind)
    (signature : String) (docstring : Option String := none) (marks : List Mark := []) : Item :=
  .found (.symbol {
    symbol := {
      name := scope.qualify leaf
      kind, signature, docstring, marks
      lineStart := span.startRow src + 1
      lineEnd := span.stopRow src + 1 }
    leaf
    start := span.start
    stop := span.stop })

/-- The edge from a type to one of its parents, without type arguments. -/
def inherit (child parent : String) : List Item :=
  let parent := Text.dropTypeArguments parent
  if parent.isEmpty || child.isEmpty then [] else [.found (.inheritance { child, parent })]

def imports (i : Import) : Item := .found (.imported i)

/-- The place to look on, if there is one. -/
def within (place : Option Cursor) (scope : Scope) : List Item :=
  place.toList.map fun p => .enter p scope

end Item

/-! ## Heads of declarations -/

/-- The text from one offset to another, on one line. -/
def headline (src : String) (start stop : Nat) : String :=
  Text.collapse (Source.slice src start stop)

/-- A head without the marks that end it. -/
def dropTerminator (mark : Char) (head : String) : String := Text.trimEnd (Text.dropEnd [mark] head)

/-- Where the text of a node begins after the leading children of the given kinds. Comments between
them are passed over. -/
def startAfter (kinds : List String) (start : Nat) : List Tree → Nat
  | [] => start
  | t :: rest =>
    if kinds.contains t.kind then startAfter kinds t.stop rest
    else if Text.hasPart "comment" t.kind then startAfter kinds start rest
    else start

namespace Tree

def startAfter (kinds : List String) (t : Tree) : Nat :=
  CodeOutline.startAfter kinds t.start t.children

/-- Where a part of the node begins, or where the node ends if it has no such part. -/
def stopBefore (t : Tree) (part : Option Tree) : Nat := (part.map start).getD t.stop

/-- The text from an offset up to the body of the node, or to its end if it has none. -/
def headlineFrom (src : String) (start : Nat) (body : Option Tree) (t : Tree) : String :=
  headline src start (t.stopBefore body)

/-- Whether the node is a chain of accesses, each a node of kind `link` whose `role` is the rest of
the chain, down to a head. What such a chain refers to does not hang on a computed value. -/
def isChain (isHead : Tree → Bool) (links : List String) (role : String) (t : Tree) : Bool :=
  if isHead t then true
  else if links.contains t.kind then
    match _h : t.field? role with
    | some rest => isChain isHead links role rest
    | none => false
  else false
termination_by t.size
decreasing_by exact size_of_field? (by assumption)

end Tree

/-- The mark that a decorator is: a name, or a call of it with arguments. -/
def Mark.ofDecorator (src callKind : String) (decorator : Tree) : Option Mark :=
  decorator.firstNamed?.map fun expression =>
    if expression.kind == callKind then
      { name := (expression.fieldText? src "function").getD ""
        arguments := ((expression.fieldText? src "arguments").map Argument.dictionary).getD ∅ }
    else { name := expression.text src }

end CodeOutline
