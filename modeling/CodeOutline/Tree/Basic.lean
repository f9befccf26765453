import CodeOutline.Source

/-!
# Syntax trees

A node has a label and children. The label names the node's kind and the role (`field`) it plays
in its parent, and says which bytes of the source it covers. Three marks tell tokens from named
nodes, stand-ins for text the grammar missed from real nodes, and trees with something wrong in
them from sound ones. A node of kind `ERROR` holds text the grammar could make nothing of.
-/

namespace CodeOutline

structure Label where
  kind : String
  named : Bool
  missing : Bool
  hasError : Bool
  field : Option String
  start : Nat
  stop : Nat
deriving DecidableEq

inductive Tree where
  | node (label : Label) (children : List Tree)

namespace Tree

def label : Tree → Label
  | node label _ => label

def children : Tree → List Tree
  | node _ children => children

def kind (t : Tree) : String := t.label.kind

def start (t : Tree) : Nat := t.label.start

def stop (t : Tree) : Nat := t.label.stop

def named (t : Tree) : Bool := t.label.named

def missing (t : Tree) : Bool := t.label.missing

def hasError (t : Tree) : Bool := t.label.hasError

def isError (t : Tree) : Bool := t.kind == "ERROR"

/-- The bytes that the node covers. -/
def width (t : Tree) : Nat := t.stop - t.start

/-- The source text that the node covers. -/
def text (src : String) (t : Tree) : String := Source.slice src t.start t.stop

def startRow (src : String) (t : Tree) : Nat := Source.rowAt src t.start

def stopRow (src : String) (t : Tree) : Nat := Source.rowAt src t.stop

/-- The row of the last line that holds some of the node's text. A node may end with the line feed
that ends this line. -/
def lastRow (src : String) (t : Tree) : Nat :=
  if Source.atLineStart src t.stop ∧ t.startRow src < t.stopRow src then t.stopRow src - 1
  else t.stopRow src

/-! ## Children -/

def namedChildren (t : Tree) : List Tree := t.children.filter named

/-- The children that play the given role. -/
def fields (name : String) (t : Tree) : List Tree :=
  t.children.filter fun c => c.label.field == some name

/-- The first child that plays the given role. -/
def field? (name : String) (t : Tree) : Option Tree :=
  t.children.find? fun c => c.label.field == some name

def ofKind? (kind : String) (t : Tree) : Option Tree := t.children.find? fun c => c.kind == kind

def hasKind (kind : String) (t : Tree) : Bool := t.children.any fun c => c.kind == kind

def firstNamed? (t : Tree) : Option Tree := t.namedChildren.head?

/-- The source text of the first child that plays the given role. -/
def fieldText? (src role : String) (t : Tree) : Option String := (t.field? role).map (text src)

/-! ## Size -/

mutual

/-- The number of nodes. -/
def size : Tree → Nat
  | node _ children => sizes children + 1

/-- The number of nodes in a list of trees. -/
def sizes : List Tree → Nat
  | [] => 0
  | t :: ts => t.size + sizes ts

end

theorem size_pos (t : Tree) : 0 < t.size := by
  cases t
  simp only [size]
  omega

theorem size_le_sizes {t : Tree} {ts : List Tree} (h : t ∈ ts) : t.size ≤ sizes ts := by
  induction ts with
  | nil => simp at h
  | cons s ts ih =>
    simp only [sizes]
    rcases List.mem_cons.mp h with rfl | h
    · omega
    · exact Nat.le_trans (ih h) (by omega)

theorem size_of_mem_children {t c : Tree} (h : c ∈ t.children) : c.size < t.size := by
  cases t
  exact Nat.lt_succ_of_le (size_le_sizes h)

theorem size_of_field? {role : String} {t c : Tree} (h : t.field? role = some c) :
    c.size < t.size :=
  size_of_mem_children (List.mem_of_find?_eq_some h)

mutual

/-- The number of levels below the root. -/
def height : Tree → Nat
  | node _ children => heights children

/-- The number of levels in a list of trees. -/
def heights : List Tree → Nat
  | [] => 0
  | t :: ts => max (t.height + 1) (heights ts)

end

end Tree

end CodeOutline
