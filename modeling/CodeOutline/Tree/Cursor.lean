import CodeOutline.Tree.Basic

/-!
# Places in a tree

A cursor is a node together with everything around it: for each level up to the root, the parent
and the siblings on both sides. It can move to the first child, to the next sibling and to the
parent, and it shows what stands before a node, which a tree alone does not.
-/

namespace CodeOutline

/-- One level of a cursor's surroundings. -/
structure Frame where
  parent : Tree
  /-- The siblings before the node, nearest first. -/
  before : List Tree
  /-- The siblings after the node, nearest first. -/
  after : List Tree

structure Cursor where
  node : Tree
  frames : List Frame

namespace Cursor

def root (t : Tree) : Cursor := ⟨t, []⟩

def depth (c : Cursor) : Nat := c.frames.length

/-- The siblings before the node, nearest first. -/
def before (c : Cursor) : List Tree :=
  match c.frames with
  | [] => []
  | frame :: _ => frame.before

def parent? (c : Cursor) : Option Cursor :=
  match c.frames with
  | [] => none
  | frame :: frames => some ⟨frame.parent, frames⟩

/-! ## Children -/

/-- The cursors at `todo`, children of `c` that follow `before`. -/
def childrenFrom (c : Cursor) (before : List Tree) : List Tree → List Cursor
  | [] => []
  | t :: todo => ⟨t, ⟨c.node, before, todo⟩ :: c.frames⟩ :: childrenFrom c (t :: before) todo

def children (c : Cursor) : List Cursor := c.childrenFrom [] c.node.children

def namedChildren (c : Cursor) : List Cursor := c.children.filter (·.node.named)

/-- The first child that plays the given role. -/
def field? (name : String) (c : Cursor) : Option Cursor :=
  c.children.find? fun child => child.node.label.field == some name

def ofKind? (kind : String) (c : Cursor) : Option Cursor :=
  c.children.find? fun child => child.node.kind == kind

theorem node_mem_of_mem_childrenFrom {c d : Cursor} {before todo : List Tree}
    (h : d ∈ c.childrenFrom before todo) : d.node ∈ todo := by
  induction todo generalizing before with
  | nil => simp [childrenFrom] at h
  | cons t todo ih =>
    rcases List.mem_cons.mp h with rfl | h
    · exact List.mem_cons_self
    · exact List.mem_cons_of_mem _ (ih h)

theorem size_of_mem_namedChildren {c d : Cursor} (h : d ∈ c.namedChildren) :
    d.node.size < c.node.size :=
  Tree.size_of_mem_children (node_mem_of_mem_childrenFrom (List.mem_filter.mp h).1)

/-! ## Moves -/

def firstChild? (c : Cursor) : Option Cursor :=
  match c.node.children with
  | [] => none
  | t :: ts => some ⟨t, ⟨c.node, [], ts⟩ :: c.frames⟩

/-- The next sibling of the node, or else of its nearest ancestor that has one. A counter is kept
along: it goes down by one with each step up, and from one there is no step up. -/
def skipFrom (node : Tree) (counter : Nat) : List Frame → Option (Cursor × Nat)
  | [] => none
  | frame :: frames =>
    match frame.after with
    | t :: ts => some (⟨t, ⟨frame.parent, node :: frame.before, ts⟩ :: frames⟩, counter)
    | [] => if counter = 1 then none else skipFrom frame.parent (counter - 1) frames

/-- The place after the node and all that is below it, and the counter there. -/
def skip? (c : Cursor) (counter : Nat) : Option (Cursor × Nat) := skipFrom c.node counter c.frames

/-! ## What lies ahead -/

def pending : List Frame → Nat
  | [] => 0
  | frame :: frames => Tree.sizes frame.after + pending frames

/-- The number of nodes at the cursor or after it in preorder. -/
def remaining (c : Cursor) : Nat := c.node.size + pending c.frames

theorem remaining_firstChild? {c d : Cursor} (h : c.firstChild? = some d) :
    d.remaining < c.remaining := by
  obtain ⟨⟨label, children⟩, frames⟩ := c
  cases children with
  | nil => simp [firstChild?, Tree.children] at h
  | cons t ts =>
    simp only [firstChild?, Tree.children, Option.some.injEq] at h
    subst h
    simp only [remaining, pending, Tree.size, Tree.sizes]
    omega

theorem remaining_skipFrom {node : Tree} {counter n : Nat} {frames : List Frame} {d : Cursor}
    (h : skipFrom node counter frames = some (d, n)) : d.remaining ≤ pending frames := by
  induction frames generalizing node counter with
  | nil => simp [skipFrom] at h
  | cons frame frames ih =>
    rw [skipFrom] at h
    split at h
    · next t ts hafter =>
      obtain ⟨rfl, -⟩ := Prod.mk.inj (Option.some.inj h)
      simp only [remaining, pending, hafter, Tree.sizes]
      omega
    · split at h
      · cases h
      · exact Nat.le_trans (ih h) (by simp only [pending]; omega)

theorem remaining_skip? {c d : Cursor} {counter n : Nat} (h : c.skip? counter = some (d, n)) :
    d.remaining < c.remaining := by
  have hle := remaining_skipFrom h
  have hpos := c.node.size_pos
  simp only [remaining] at hle ⊢
  omega

end Cursor

end CodeOutline
