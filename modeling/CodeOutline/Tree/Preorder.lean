import CodeOutline.Tree.Basic

/-!
# Trees as lists

A tree can be given as the list of its labels in preorder, each with its depth. Reading the list
from the right, the subtrees that wait for their parent stand in a row; a label of depth `d` takes
those of depth `d + 1` at the front of the row as its children.
-/

namespace CodeOutline.Tree

/-- Puts a label in front of the waiting subtrees, with its children taken from them. -/
def adopt (entry : Nat × Label) (waiting : List (Nat × Tree)) : List (Nat × Tree) :=
  let isChild := fun (w : Nat × Tree) => w.1 == entry.1 + 1
  (entry.1, node entry.2 ((waiting.takeWhile isChild).map (·.2))) :: waiting.dropWhile isChild

/-- The tree with the given labels in preorder. -/
def ofPreorder? (entries : List (Nat × Label)) : Option Tree :=
  match entries.foldr adopt [] with
  | [(0, t)] => some t
  | _ => none

end CodeOutline.Tree
