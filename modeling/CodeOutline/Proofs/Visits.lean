import CodeOutline.Proofs.Depth

/-!
# What a walk visits

`Tree.visits` lists the visits to a tree by recursion, each with its depth, together with the state
that they leave: the node comes first, and what is below it follows, one level deeper, if the
visitor says so.

**Theorem (`walk_makes_visits`).** The walk, which is a loop with one cursor and a counter, makes
exactly the visits of the recursion to the children of the root, in the same order and with the same
depths, and it ends in the same state. It visits no node twice and never the root.

A loop shows its visits only through its visitor. So the visitor is made to write them down
(`Visitor.recorded`), which changes nothing else. The induction is done once, for every visitor that
`Tracks` the given one: the visitor itself tracks it, and so does the one that writes.
-/

namespace CodeOutline

variable {σ τ : Type}

/-! ## Visitors that follow another -/

/-- The same visitor, which also writes down its visits. -/
def Visitor.recorded (v : Visitor σ) : Visitor (List (Tree × Nat) × σ) := fun t depth s =>
  let visited := v t depth s.2
  (visited.1, s.1 ++ [(t, depth)], visited.2)

/-- The visitor `w` decides like `v`, and its state is told by the visits made so far and the state
of `v`. -/
def Visitor.Tracks (w : Visitor τ) (v : Visitor σ) (f : List (Tree × Nat) → σ → τ) : Prop :=
  ∀ t depth made s,
    w t depth (f made s) = ((v t depth s).1, f (made ++ [(t, depth)]) (v t depth s).2)

theorem Visitor.tracks_self (v : Visitor σ) : v.Tracks v fun _ s => s := by
  intro t depth made s
  rfl

theorem Visitor.tracks_recorded (v : Visitor σ) : v.recorded.Tracks v Prod.mk := by
  intro t depth made s
  rfl

namespace Tree

/-! ## The visits -/

mutual

/-- The visits to a node at the given depth and to what is below it, and the state they leave. -/
def visits (v : Visitor σ) (depth : Nat) : Tree → σ → List (Tree × Nat) × σ
  | node label children, s =>
    let visited := v (node label children) depth s
    let below := if visited.1 then visitsOf v (depth + 1) children visited.2 else ([], visited.2)
    ((node label children, depth) :: below.1, below.2)

/-- The visits to the nodes of a list from left to right. -/
def visitsOf (v : Visitor σ) (depth : Nat) : List Tree → σ → List (Tree × Nat) × σ
  | [], s => ([], s)
  | t :: ts, s =>
    let first := visits v depth t s
    let rest := visitsOf v depth ts first.2
    (first.1 ++ rest.1, rest.2)

end

theorem visits_eq (v : Visitor σ) (depth : Nat) (t : Tree) (s : σ) :
    t.visits v depth s =
      let below :=
        if (v t depth s).1 then visitsOf v (depth + 1) t.children (v t depth s).2
        else ([], (v t depth s).2)
      ((t, depth) :: below.1, below.2) := by
  obtain ⟨label, children⟩ := t
  rw [visits, children_node]

theorem visitAll_of_tracks {v : Visitor σ} {w : Visitor τ} {f : List (Tree × Nat) → σ → τ}
    {depth : Nat} {ts : List Tree}
    (h : ∀ t ∈ ts, ∀ made s, t.visit w depth (f made s) =
      f (made ++ (t.visits v depth s).1) (t.visits v depth s).2)
    (made : List (Tree × Nat)) (s : σ) :
    visitAll w depth ts (f made s) =
      f (made ++ (visitsOf v depth ts s).1) (visitsOf v depth ts s).2 := by
  induction ts generalizing made s with
  | nil => simp only [visitAll, visitsOf, List.append_nil]
  | cons t ts ih =>
    have hrest := ih fun c hc => h c (List.mem_cons_of_mem t hc)
    simp only [visitAll, visitsOf]
    rw [h t List.mem_cons_self, hrest, List.append_assoc]

/-- Visiting with a visitor that tracks another one makes the visits of that one. -/
theorem visit_of_tracks {v : Visitor σ} {w : Visitor τ} {f : List (Tree × Nat) → σ → τ}
    (h : w.Tracks v f) (depth : Nat) (t : Tree) (made : List (Tree × Nat)) (s : σ) :
    t.visit w depth (f made s) =
      f (made ++ (t.visits v depth s).1) (t.visits v depth s).2 := by
  induction t generalizing depth made s with
  | node label children ih =>
    have hall := visitAll_of_tracks fun c hc => ih c hc (depth + 1)
    rw [visit_eq, visits_eq, h, children_node]
    by_cases hdown : (v (node label children) depth s).1 = true
    · simp only [hdown, if_true]
      rw [hall, List.append_assoc]
      rfl
    · simp only [hdown, Bool.false_eq_true, if_false]

theorem walk_of_tracks {v : Visitor σ} {w : Visitor τ} {f : List (Tree × Nat) → σ → τ}
    (h : w.Tracks v f) (t : Tree) (s : σ) :
    t.walk w (f [] s) =
      f (visitsOf v 1 t.children s).1 (visitsOf v 1 t.children s).2 := by
  rw [walk_eq_visitAll]
  exact visitAll_of_tracks (fun c _ => visit_of_tracks h 1 c) [] s

/-! ## Where the visits are -/

theorem visitsOf_sublist {v : Visitor σ} {depth : Nat} {ts : List Tree}
    (h : ∀ t ∈ ts, ∀ s, ((t.visits v depth s).1.map (·.1)).Sublist t.nodes) (s : σ) :
    ((visitsOf v depth ts s).1.map (·.1)).Sublist (ts.flatMap nodes) := by
  induction ts generalizing s with
  | nil => exact List.Sublist.refl []
  | cons t ts ih =>
    rw [visitsOf, List.map_append, List.flatMap_cons]
    apply (h t List.mem_cons_self s).append
    exact ih (fun c hc => h c (List.mem_cons_of_mem t hc)) _

/-- The visits come in preorder, at most one for each node. -/
theorem visits_sublist (v : Visitor σ) (depth : Nat) (t : Tree) (s : σ) :
    ((t.visits v depth s).1.map (·.1)).Sublist t.nodes := by
  induction t generalizing depth s with
  | node label children ih =>
    rw [visits_eq, nodes_eq_cons, children_node, List.map_cons]
    apply List.Sublist.cons_cons
    by_cases hdown : (v (node label children) depth s).1 = true
    · rw [if_pos hdown]
      exact visitsOf_sublist (fun c hc => ih c hc (depth + 1)) _
    · rw [if_neg hdown]
      exact List.nil_sublist _

theorem mem_visitsOf {v : Visitor σ} {depth : Nat} {ts : List Tree} {s : σ} {visit : Tree × Nat}
    (h : visit ∈ (visitsOf v depth ts s).1) :
    ∃ t ∈ ts, ∃ s, visit ∈ (t.visits v depth s).1 := by
  induction ts generalizing s with
  | nil => cases h
  | cons t ts ih =>
    rw [visitsOf, List.mem_append] at h
    rcases h with hfirst | hrest
    · exact ⟨t, List.mem_cons_self, s, hfirst⟩
    · obtain ⟨c, hc, found⟩ := ih hrest
      exact ⟨c, List.mem_cons_of_mem t hc, found⟩

/-- A node is visited at the depth at which it stands. -/
theorem mem_level_of_mem_visits {v : Visitor σ} {depth : Nat} {t : Tree} {s : σ}
    {visit : Tree × Nat} (h : visit ∈ (t.visits v depth s).1) :
    ∃ n, visit.2 = depth + n ∧ visit.1 ∈ t.level n := by
  induction t generalizing depth s with
  | node label children ih =>
    rw [visits_eq, children_node] at h
    rcases List.mem_cons.mp h with rfl | hbelow
    · exact ⟨0, rfl, List.mem_singleton_self _⟩
    · by_cases hdown : (v (node label children) depth s).1 = true
      · rw [if_pos hdown] at hbelow
        obtain ⟨c, hc, _, hvisit⟩ := mem_visitsOf hbelow
        obtain ⟨n, hdepth, hlevel⟩ := ih c hc hvisit
        refine ⟨n + 1, by omega, ?_⟩
        rw [level, children_node]
        exact List.mem_flatMap.mpr ⟨c, hc, hlevel⟩
      · rw [if_neg hdown] at hbelow
        cases hbelow

/-- **The visits of a walk.** The walk makes the visits that the recursion makes to the children of
the root, with the same depths, and leaves the visitor in the same state. The visits come in
preorder, at most one for each node below the root; each is at the node's own depth, and none is to
the root. -/
theorem walk_makes_visits (v : Visitor σ) (t : Tree) (s : σ) :
    t.walk v.recorded ([], s) = visitsOf v 1 t.children s ∧
    t.walk v s = (visitsOf v 1 t.children s).2 ∧
    ((visitsOf v 1 t.children s).1.map (·.1)).Sublist (t.children.flatMap nodes) ∧
    ∀ visit ∈ (visitsOf v 1 t.children s).1, visit.1 ∈ t.level visit.2 ∧ visit.1 ≠ t := by
  refine ⟨walk_of_tracks v.tracks_recorded t s, walk_of_tracks v.tracks_self t s,
    visitsOf_sublist (fun c _ => visits_sublist v 1 c) s, ?_⟩
  intro visit hvisit
  obtain ⟨c, hc, state, hvisit⟩ := mem_visitsOf hvisit
  obtain ⟨n, hdepth, hlevel⟩ := mem_level_of_mem_visits hvisit
  have hnode : visit.1 ∈ c.nodes :=
    (visits_sublist v 1 c state).subset (List.mem_map_of_mem hvisit)
  refine ⟨?_, ?_⟩
  · rw [hdepth, Nat.add_comm, level]
    exact List.mem_flatMap.mpr ⟨c, hc, hlevel⟩
  · -- what is below the root is less high than the root
    intro hroot
    have hbelow := height_le_of_mem_nodes hnode
    have hchild := height_lt_of_mem_children hc
    rw [hroot] at hbelow
    omega

end Tree

end CodeOutline
