import CodeOutline.CallSite
import CodeOutline.Proofs.Nodes

/-!
# Walking is visiting recursively

`Tree.visit` says by recursion what a walk does at a node: visit it, then go on with its children if
the visitor wants to. The loop that moves a cursor does the same (`walk_eq_visitAll`). At each turn
of the loop, what is left to do is to visit the node at the cursor and then all the nodes that the
frames above it hold back; `resume` is the second part, and moving the cursor on takes from it
exactly the node moved to. The loop's counter always tells the depth of the cursor
(`counter_next?`), so the loop stops below the root and nowhere else.

The calls of a file are collected by such a walk, so they are the calls at the *clear* nodes, those
that are neither `ERROR` nodes nor below one, in preorder (`collectCalls_eq_map`).
-/

namespace CodeOutline

variable {σ : Type}

namespace Tree

/-! ## Recursive visits -/

mutual

/-- Visits a node at the given depth, and what is below it if the visitor says so. -/
def visit (v : Visitor σ) (depth : Nat) : Tree → σ → σ
  | node label children, s =>
    let visited := v (node label children) depth s
    if visited.1 then visitAll v (depth + 1) children visited.2 else visited.2

/-- Visits the nodes of a list from left to right. -/
def visitAll (v : Visitor σ) (depth : Nat) : List Tree → σ → σ
  | [], s => s
  | t :: ts, s => visitAll v depth ts (visit v depth t s)

end

theorem visit_eq (v : Visitor σ) (depth : Nat) (t : Tree) (s : σ) :
    t.visit v depth s = if (v t depth s).1 then visitAll v (depth + 1) t.children (v t depth s).2
      else (v t depth s).2 := by
  obtain ⟨label, children⟩ := t
  rw [visit, children_node]

end Tree

/-! ## The loop -/

namespace Cursor

open CodeOutline.Tree

/-- Visits the nodes that wait in the frames above a place. -/
def resume (v : Visitor σ) : List Frame → σ → σ
  | [], s => s
  | frame :: frames, s => resume v frames (visitAll v (frames.length + 1) frame.after s)

theorem resume_skipFrom (v : Visitor σ) (node : Tree) (frames : List Frame) (s : σ) :
    resume v frames s =
      match skipFrom node frames.length frames with
      | some (d, _) => resume v d.frames (d.node.visit v d.depth s)
      | none => s := by
  induction frames generalizing node with
  | nil => rfl
  | cons frame frames ih =>
    rw [skipFrom]
    cases hafter : frame.after with
    | cons t ts => simp only [resume, hafter, visitAll, depth, List.length_cons]
    | nil =>
      simp only [resume, hafter, visitAll, List.length_cons, Nat.add_sub_cancel]
      by_cases htop : frames.length + 1 = 1
      · -- the frame of the root is the last one, and nothing waits in it
        have hnil : frames = [] := List.length_eq_zero_iff.mp (by omega)
        rw [if_pos htop, hnil, resume]
      · rw [if_neg htop, ih frame.parent]

/-- Skipping keeps the counter equal to the depth. -/
theorem counter_skipFrom {node : Tree} {frames : List Frame} {d : Cursor} {n : Nat}
    (h : skipFrom node frames.length frames = some (d, n)) : n = d.depth := by
  induction frames generalizing node with
  | nil => cases h
  | cons frame frames ih =>
    rw [skipFrom] at h
    split at h
    · obtain ⟨rfl, rfl⟩ := Prod.mk.inj (Option.some.inj h)
      rfl
    · split at h
      · cases h
      · exact ih h

/-- Every move of the walk keeps the counter equal to the depth. -/
theorem counter_next? {c d : Cursor} {down : Bool} {n : Nat}
    (h : c.next? c.depth down = some (d, n)) : n = d.depth := by
  unfold next? at h
  split at h
  · next e hchild =>
    obtain ⟨rfl, rfl⟩ := Prod.mk.inj (Option.some.inj h)
    unfold firstChild? at hchild
    split at hchild
    · cases hchild
    · rw [← Option.some.inj hchild]
      rfl
  · exact counter_skipFrom h

/-- What is left to do after a visit is what is left to do where the cursor goes. -/
theorem resume_visit (v : Visitor σ) (c : Cursor) (s : σ) :
    resume v c.frames (c.node.visit v c.depth s) =
      match c.next? c.depth (v c.node c.depth s).1 with
      | some (d, _) => resume v d.frames (d.node.visit v d.depth (v c.node c.depth s).2)
      | none => (v c.node c.depth s).2 := by
  rw [visit_eq]
  cases hdown : (v c.node c.depth s).1 with
  | false => exact resume_skipFrom v c.node c.frames _
  | true =>
    cases hchildren : c.node.children with
    | nil =>
      have hstay : c.next? c.depth true = c.skip? c.depth := by
        simp [next?, firstChild?, hchildren]
      rw [hstay]
      exact resume_skipFrom v c.node c.frames _
    | cons t ts =>
      -- down to the first child, whose siblings wait in a new frame
      have hfirst : c.next? c.depth true =
          some (⟨t, ⟨c.node, [], ts⟩ :: c.frames⟩, c.depth + 1) := by
        simp [next?, firstChild?, hchildren]
      rw [hfirst]
      rfl

theorem walk_eq_resume (v : Visitor σ) (c : Cursor) {depth : Nat} (hdepth : depth = c.depth)
    (s : σ) : c.walk v depth s = resume v c.frames (c.node.visit v c.depth s) := by
  fun_induction c.walk v depth s with
  | case1 c depth s visited d n hnext ih =>
    subst hdepth
    change c.next? c.depth (v c.node c.depth s).1 = some (d, n) at hnext
    rw [ih (counter_next? hnext), resume_visit v c s, hnext]
  | case2 c depth s visited hnext =>
    subst hdepth
    change c.next? c.depth (v c.node c.depth s).1 = none at hnext
    rw [resume_visit v c s, hnext]

end Cursor

namespace Tree

/-- **The walk.** Walking through a tree is visiting the children of the root, at depth one. -/
theorem walk_eq_visitAll (v : Visitor σ) (t : Tree) (s : σ) :
    t.walk v s = visitAll v 1 t.children s := by
  cases hchildren : t.children with
  | nil =>
    have hfirst : (Cursor.root t).firstChild? = none := by
      simp [Cursor.root, Cursor.firstChild?, hchildren]
    rw [walk, hfirst]
    rfl
  | cons c cs =>
    have hfirst : (Cursor.root t).firstChild? = some ⟨c, [⟨t, [], cs⟩]⟩ := by
      simp [Cursor.root, Cursor.firstChild?, hchildren]
    rw [walk, hfirst]
    exact Cursor.walk_eq_resume v _ rfl s

/-! ## Clear nodes -/

mutual

/-- The nodes that are neither `ERROR` nodes nor below one, in preorder. -/
def clear : Tree → List Tree
  | node label children =>
    if label.kind == "ERROR" then [] else node label children :: clearOf children

/-- The clear nodes of a list of trees. -/
def clearOf : List Tree → List Tree
  | [] => []
  | t :: ts => t.clear ++ clearOf ts

end

theorem clear_eq (t : Tree) : t.clear = if t.isError then [] else t :: clearOf t.children := by
  obtain ⟨label, children⟩ := t
  rw [clear, children_node]
  rfl

theorem clearOf_eq_flatMap (ts : List Tree) : clearOf ts = ts.flatMap clear := by
  induction ts with
  | nil => rfl
  | cons t ts ih => rw [clearOf, ih, List.flatMap_cons]

theorem isError_of_mem_clear {s t : Tree} (h : s ∈ t.clear) : s.isError = false := by
  induction t with
  | node label children ih =>
    rw [clear_eq] at h
    split at h
    · simp at h
    · next hclear =>
      rcases List.mem_cons.mp h with rfl | h
      · simpa using hclear
      · rw [clearOf_eq_flatMap, List.mem_flatMap] at h
        obtain ⟨c, hc, h⟩ := h
        exact ih c hc h

theorem mem_nodes_of_mem_clear {s t : Tree} (h : s ∈ t.clear) : s ∈ t.nodes := by
  induction t with
  | node label children ih =>
    rw [clear_eq, clearOf_eq_flatMap] at h
    split at h
    · cases h
    · rcases List.mem_cons.mp h with rfl | h
      · exact self_mem_nodes _
      · obtain ⟨c, hc, h⟩ := List.mem_flatMap.mp h
        exact mem_nodes_iff.mpr (Or.inr ⟨c, hc, ih c hc h⟩)

end Tree

/-! ## Calls -/

/-- The nodes below the root at which there is a call, with what they show of it. -/
def callSites (site? : Tree → Option CallSite) (root : Tree) : List (Tree × CallSite) :=
  (Tree.clearOf root.children).filterMap fun t => (site? t).map fun site => (t, site)

section CollectCalls

open CodeOutline.Tree

variable (src : String) (scopes : List Declared) (site? : Tree → Option CallSite)

/-- What the walk that collects calls does at a node. Calls are held last first. -/
def callVisitor : Visitor (List Call) := fun t _ calls =>
  if t.isError then (false, calls)
  else match site? t with
    | some site => (true, site.callAt src scopes t :: calls)
    | none => (true, calls)

/-- The call at a node, if there is one. -/
def call? (t : Tree) : Option Call := (site? t).map fun site => site.callAt src scopes t

theorem visitAll_callVisitor {ts : List Tree} (depth : Nat) (calls : List Call)
    (h : ∀ t ∈ ts, ∀ calls, t.visit (callVisitor src scopes site?) depth calls =
      (t.clear.filterMap (call? src scopes site?)).reverse ++ calls) :
    visitAll (callVisitor src scopes site?) depth ts calls =
      ((clearOf ts).filterMap (call? src scopes site?)).reverse ++ calls := by
  induction ts generalizing calls with
  | nil => rfl
  | cons t ts ih =>
    rw [visitAll, h t List.mem_cons_self, ih _ fun t ht => h t (List.mem_cons_of_mem _ ht)]
    simp [clearOf]

theorem visit_callVisitor (depth : Nat) (t : Tree) (calls : List Call) :
    t.visit (callVisitor src scopes site?) depth calls =
      (t.clear.filterMap (call? src scopes site?)).reverse ++ calls := by
  induction t generalizing depth calls with
  | node label children ih =>
    have hall := fun calls => visitAll_callVisitor src scopes site? (depth + 1) calls
      fun t ht => ih t ht (depth + 1)
    rw [visit_eq, clear_eq]
    by_cases herror : (node label children).isError
    · simp [callVisitor, herror]
    · cases hsite : site? (node label children) with
      | none => simp [callVisitor, call?, herror, hsite, hall]
      | some site => simp [callVisitor, call?, herror, hsite, hall]

/-- **Calls.** The calls in a tree are those at its call sites, in preorder. -/
theorem collectCalls_eq_map (root : Tree) :
    collectCalls src scopes site? root =
      (callSites site? root).map fun (t, site) => site.callAt src scopes t := by
  have hwalk : collectCalls src scopes site? root =
      (root.walk (callVisitor src scopes site?) []).reverse := rfl
  have hvisit := visitAll_callVisitor src scopes site? 1 []
    fun t (_ : t ∈ root.children) => visit_callVisitor src scopes site? 1 t
  rw [hwalk, walk_eq_visitAll, hvisit, List.append_nil, List.reverse_reverse, callSites,
    List.map_filterMap]
  congr 1
  funext t
  simp [call?, Option.map_map, Function.comp_def]

end CollectCalls

end CodeOutline
