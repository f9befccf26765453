import CodeOutline.Decimal.Reader
import CodeOutline.Json.Reader
import CodeOutline.Tree.Preorder

/-!
# Trees as documents

A tree is written as a JSON list of its nodes in preorder. Each node is a list of six items: its
depth, its kind, its marks, its role, and where it starts and stops. The marks are a number: one for
a named node, two for a stand-in, four for a node with something wrong in it. An empty role is none.
-/

namespace CodeOutline.Tree

def nat? : Json → Option Nat
  | .number digits => Decimal.nat? digits
  | _ => none

def label? : Json → Option (Nat × Label)
  | .array [depth, .string (some kind), marks, .string (some role), start, stop] => do
    let marks ← nat? marks
    return (← nat? depth, {
      kind
      named := marks % 2 == 1
      missing := marks / 2 % 2 == 1
      hasError := marks / 4 % 2 == 1
      field := if role.isEmpty then none else some role
      start := ← nat? start
      stop := ← nat? stop })
  | _ => none

def ofJson? : Json → Option Tree
  | .array nodes => (nodes.mapM label?).bind ofPreorder?
  | _ => none

/-- The tree that a document holds. -/
def ofDocument? (text : String) : Option Tree := (Json.parse? text).bind ofJson?

end CodeOutline.Tree
