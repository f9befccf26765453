import CodeOutline.Damage
import CodeOutline.Proofs.Walk
import Mathlib.Order.MinMax

/-!
# How deep a tree is

The nodes `n` levels below the root of a tree are `Tree.level n`, and the height of the tree is the
last level with a node on it (`exists_mem_level_iff`).

**Theorem (`nesting_eq_min`).** `Tree.nesting` measures the height by a walk that turns back one
level below its limit. It finds the height, or one more than the limit if that is less.

The proof follows the walk. A visit at some depth raises the deepest depth seen to the depth of the
deepest node below, cut off at the limit (`visit_depthVisitor`).
-/

namespace CodeOutline.Tree

/-! ## Levels -/

/-- The nodes that many levels below the root. -/
def level : Nat → Tree → List Tree
  | 0, t => [t]
  | n + 1, t => t.children.flatMap (level n)

theorem height_eq_heights (t : Tree) : t.height = heights t.children := by
  obtain ⟨label, children⟩ := t
  rw [height, children_node]

theorem lt_heights_iff {n : Nat} {ts : List Tree} :
    n < heights ts ↔ ∃ t ∈ ts, n ≤ t.height := by
  induction ts with
  | nil => simp [heights]
  | cons t ts ih =>
    rw [heights, lt_max_iff, ih, Nat.lt_succ_iff]
    simp

/-- A tree has nodes on its levels up to its height, and on no other. -/
theorem exists_mem_level_iff {n : Nat} {t : Tree} : (∃ s, s ∈ t.level n) ↔ n ≤ t.height := by
  induction n generalizing t with
  | zero => simp [level]
  | succ n ih =>
    rw [Nat.succ_le_iff, height_eq_heights, lt_heights_iff]
    constructor
    · rintro ⟨s, hs⟩
      obtain ⟨c, hc, hs⟩ := List.mem_flatMap.mp hs
      exact ⟨c, hc, ih.mp ⟨s, hs⟩⟩
    · rintro ⟨c, hc, hle⟩
      obtain ⟨s, hs⟩ := ih.mpr hle
      exact ⟨s, List.mem_flatMap.mpr ⟨c, hc, hs⟩⟩

/-- A tree is higher than a limit when some node lies further below the root than that. -/
theorem lt_height_iff {limit : Nat} {t : Tree} :
    limit < t.height ↔ ∃ n s, limit < n ∧ s ∈ t.level n := by
  constructor
  · intro h
    obtain ⟨s, hs⟩ := exists_mem_level_iff.mpr (Nat.le_refl t.height)
    exact ⟨t.height, s, h, hs⟩
  · rintro ⟨n, s, hn, hs⟩
    exact Nat.lt_of_lt_of_le hn (exists_mem_level_iff.mp ⟨s, hs⟩)

/-! ## The walk with a limit -/

/-- What the walk that measures nesting does at a node. -/
def depthVisitor (limit : Nat) : Visitor Nat := fun _ depth deepest =>
  (depth ≤ limit, max deepest depth)

theorem visitAll_depthVisitor (limit depth : Nat) {ts : List Tree}
    (h : ∀ t ∈ ts, ∀ deepest, t.visit (depthVisitor limit) (depth + 1) deepest =
      max deepest (min (depth + 1 + t.height) (limit + 1)))
    {deepest : Nat} (hdeepest : depth ≤ deepest) :
    visitAll (depthVisitor limit) (depth + 1) ts deepest =
      max deepest (min (depth + heights ts) (limit + 1)) := by
  induction ts generalizing deepest with
  | nil =>
    rw [visitAll, heights]
    omega
  | cons t ts ih =>
    rw [visitAll, h t List.mem_cons_self, heights,
      ih (fun c hc => h c (List.mem_cons_of_mem t hc)) (by omega)]
    omega

theorem visit_depthVisitor {limit depth : Nat} (hdepth : depth ≤ limit + 1) (t : Tree)
    (deepest : Nat) : t.visit (depthVisitor limit) depth deepest =
      max deepest (min (depth + t.height) (limit + 1)) := by
  induction t generalizing depth deepest with
  | node label children ih =>
    rw [visit_eq, height_eq_heights, children_node]
    by_cases hdown : depth ≤ limit
    · -- the children are at most one level below the limit
      have hall := visitAll_depthVisitor limit depth
        (fun c hc deepest => ih c hc (by omega) deepest) (Nat.le_max_right deepest depth)
      simp only [depthVisitor, hdown, decide_true, if_true] at hall ⊢
      rw [hall]
      omega
    · simp only [depthVisitor, hdown, decide_false, Bool.false_eq_true, if_false]
      omega

/-- **Nesting** is the height of the tree, counted up to one more than the limit. -/
theorem nesting_eq_min (t : Tree) (limit : Nat) : t.nesting limit = min t.height (limit + 1) := by
  have hwalk : t.nesting limit = t.walk (depthVisitor limit) 0 := rfl
  have hall := visitAll_depthVisitor limit 0
    (fun c (_ : c ∈ t.children) deepest => visit_depthVisitor (by omega) c deepest) (Nat.le_refl 0)
  rw [hwalk, walk_eq_visitAll, hall, ← height_eq_heights]
  omega

end CodeOutline.Tree
