import CodeOutline.Text.Basic
import CodeOutline.Tree.Cursor

/-!
# Comments beside declarations

Which comments document a node. Those right above a declaration are its own: they reach up to it
without a blank line between. Those at the top of a file belong to the file when something other
than a declaration follows, or a blank line does.
-/

namespace CodeOutline.Comments

/-- Nodes of comments, in every grammar, have a kind with this word in it. -/
def isComment (t : Tree) : Bool := Text.hasPart "comment" t.kind

/-- The comments above a place, nearest first, given the row of what they lead up to and the
siblings before it, nearest first. Siblings of the kinds in `skip` are passed over. -/
def upwards (src : String) (isDoc : String → Bool) (skip : List String) (row : Nat) :
    List Tree → List Tree
  | [] => []
  | t :: rest =>
    if skip.contains t.kind then upwards src isDoc skip (t.startRow src) rest
    else if isComment t && isDoc (t.text src) then
      if t.lastRow src + 1 < row then []
      else t :: upwards src isDoc skip (t.startRow src) rest
    else []

/-- The comments right above a node, in source order. -/
def before (src : String) (isDoc : String → Bool) (skip : List String) (c : Cursor) : List Tree :=
  (upwards src isDoc skip (c.node.startRow src) c.before).reverse

/-- The comments at the front of a list of nodes, after those in `taken`, which come last first, and
the node that ends them. -/
def leadingFrom (src : String) (isDoc : String → Bool) (preamble : List String)
    (taken : List Tree) : List Tree → List Tree × Option Tree
  | [] => (taken, none)
  | t :: rest =>
    if preamble.contains t.kind then leadingFrom src isDoc preamble taken rest
    else if isComment t then
      match taken with
      | [] =>
        if isDoc (t.text src) then leadingFrom src isDoc preamble [t] rest
        else leadingFrom src isDoc preamble [] rest
      | last :: _ =>
        if isDoc (t.text src) && !(last.lastRow src + 1 < t.startRow src) then
          leadingFrom src isDoc preamble (t :: taken) rest
        else (taken, some t)
    else (taken, some t)

/-- The comments that document a file, in source order. `preamble` are the kinds of nodes that may
stand before them, and `header` those of statements that are no declarations. -/
def leading (src : String) (isDoc : String → Bool) (preamble header : List String) (root : Tree) :
    List Tree :=
  match leadingFrom src isDoc preamble [] root.children with
  | ([], _) => []
  | (taken, none) => taken.reverse
  | (last :: earlier, some next) =>
    if header.contains next.kind || isComment next || last.lastRow src + 1 < next.startRow src then
      (last :: earlier).reverse
    else []

/-- A block comment for documentation, which begins with two stars and has some text. -/
def isDocBlock (text : String) : Bool := Text.startsWith "/**" text && text != "/**/"

end CodeOutline.Comments
