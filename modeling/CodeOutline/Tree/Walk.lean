import CodeOutline.Tree.Cursor

/-!
# Walking a tree

`Tree.walk` takes a visitor through the nodes below the root in preorder. The visitor sees a node
and its depth, where the root's children have depth one, changes its state, and says whether to go
below the node. The walk is a loop that moves one cursor and counts its depth; it ends because each
move leaves fewer nodes ahead.
-/

namespace CodeOutline

/-- What is done at a node: given the node, its depth and the state, whether to go below it, and
the new state. -/
abbrev Visitor (σ : Type) := Tree → Nat → σ → Bool × σ

namespace Cursor

/-- Where the walk goes from here, and how deep that is. -/
def next? (c : Cursor) (depth : Nat) (down : Bool) : Option (Cursor × Nat) :=
  match down, c.firstChild? with
  | true, some d => some (d, depth + 1)
  | _, _ => c.skip? depth

theorem remaining_next? {c d : Cursor} {depth n : Nat} {down : Bool}
    (h : c.next? depth down = some (d, n)) : d.remaining < c.remaining := by
  unfold next? at h
  split at h
  · next e hchild =>
    obtain ⟨rfl, -⟩ := Prod.mk.inj (Option.some.inj h)
    exact remaining_firstChild? hchild
  · exact remaining_skip? h

/-- Visits the node at the cursor, which has the given depth, and all that follow it. -/
def walk {σ : Type} (visit : Visitor σ) (c : Cursor) (depth : Nat) (s : σ) : σ :=
  let visited := visit c.node depth s
  match _h : c.next? depth visited.1 with
  | some (d, n) => d.walk visit n visited.2
  | none => visited.2
termination_by c.remaining
decreasing_by exact remaining_next? (by assumption)

end Cursor

namespace Tree

/-- Visits the nodes below the root. -/
def walk {σ : Type} (visit : Visitor σ) (t : Tree) (s : σ) : σ :=
  match (Cursor.root t).firstChild? with
  | some c => c.walk visit 1 s
  | none => s

end Tree

end CodeOutline
