import CodeOutline.Proofs.Exploration

/-!
# Rules that go forward

The symbols that a rule finds come in the order in which the rule lists them. This is the order of
the source if the rule never goes back.

**Ranges.** A list of ranges is *ascending* between two offsets when its ranges lie between them,
one after another. So are the ranges of the children of a node in a well-nested tree. If in place of
each range there are ranges that ascend inside it, the whole still ascends (`Ascending.flatMap`).

**Items.** A declaration takes up the offset where it begins, and a place where to look on takes up
all of its node. A list of items is *in order* when the ranges they take up ascend.

**Theorem (`ascending_findings`).** If all that a rule lists for a node is in order, the symbols it
finds in a well-nested tree begin in order. The proof goes through the levels of the exploration:
what is found below a place ascends inside the range of the place.
-/

namespace CodeOutline

open CodeOutline.Tree

/-! ## Ranges one after another -/

/-- The ranges lie between `lo` and `hi`, one after another. -/
def Ascending (lo hi : Nat) : List (Nat × Nat) → Prop
  | [] => lo ≤ hi
  | (start, stop) :: rest => lo ≤ start ∧ start ≤ stop ∧ Ascending stop hi rest

namespace Ascending

variable {lo mid hi : Nat} {rs : List (Nat × Nat)}

theorem le (h : Ascending lo hi rs) : lo ≤ hi := by
  induction rs generalizing lo with
  | nil => exact h
  | cons r rs ih => exact Nat.le_trans h.1 (Nat.le_trans h.2.1 (ih h.2.2))

theorem mono {low high : Nat} (h : Ascending lo hi rs) (hlow : low ≤ lo) (hhigh : hi ≤ high) :
    Ascending low high rs := by
  induction rs generalizing low lo with
  | nil => exact Nat.le_trans hlow (Nat.le_trans h hhigh)
  | cons r rs ih => exact ⟨Nat.le_trans hlow h.1, h.2.1, ih h.2.2 (Nat.le_refl _)⟩

theorem append {xs ys : List (Nat × Nat)} (hx : Ascending lo mid xs) (hy : Ascending mid hi ys) :
    Ascending lo hi (xs ++ ys) := by
  induction xs generalizing lo with
  | nil => exact hy.mono hx (Nat.le_refl hi)
  | cons x xs ih => exact ⟨hx.1, hx.2.1, ih hx.2.2⟩

theorem sublist {xs ys : List (Nat × Nat)} (h : Ascending lo hi ys) (hsub : xs.Sublist ys) :
    Ascending lo hi xs := by
  induction hsub generalizing lo with
  | slnil => exact h
  | cons y _ ih => exact (ih h.2.2).mono (Nat.le_trans h.1 h.2.1) (Nat.le_refl hi)
  | cons_cons y _ ih => exact ⟨h.1, h.2.1, ih h.2.2⟩

/-- **Refinement.** Ranges that ascend inside ascending ranges ascend. -/
theorem refine {α : Type} {range? : α → Option (Nat × Nat)} {xs : List α}
    {f : α → List (Nat × Nat)} (h : Ascending lo hi (xs.filterMap range?))
    (hsome : ∀ x ∈ xs, ∀ r, range? x = some r → Ascending r.1 r.2 (f x))
    (hnone : ∀ x ∈ xs, range? x = none → f x = []) : Ascending lo hi (xs.flatMap f) := by
  induction xs generalizing lo with
  | nil => exact h
  | cons x xs ih =>
    have hrest : ∀ {lo : Nat}, Ascending lo hi (xs.filterMap range?) →
        Ascending lo hi (xs.flatMap f) := fun h =>
      ih h (fun y hy => hsome y (List.mem_cons_of_mem x hy))
        (fun y hy => hnone y (List.mem_cons_of_mem x hy))
    rw [List.flatMap_cons]
    cases hx : range? x with
    | none =>
      rw [hnone x List.mem_cons_self hx, List.nil_append]
      rw [List.filterMap_cons_none hx] at h
      exact hrest h
    | some r =>
      rw [List.filterMap_cons_some hx] at h
      obtain ⟨hlow, _, hafter⟩ := h
      have hfirst := hsome x List.mem_cons_self r hx
      exact append (hfirst.mono hlow (Nat.le_refl _)) (hrest hafter)

theorem flatMap {α : Type} {range : α → Nat × Nat} {xs : List α} {f : α → List (Nat × Nat)}
    (h : Ascending lo hi (xs.map range))
    (hf : ∀ x ∈ xs, Ascending (range x).1 (range x).2 (f x)) :
    Ascending lo hi (xs.flatMap f) := by
  rw [← List.filterMap_eq_map] at h
  refine h.refine (fun x hx r hr => ?_) (fun x _ hnone => ?_)
  · rw [← Option.some.inj hr]
    exact hf x hx
  · cases hnone

theorem of_pairwise {xs : List (Nat × Nat)} (hle : lo ≤ hi)
    (hin : ∀ x ∈ xs, lo ≤ x.1 ∧ x.1 ≤ x.2 ∧ x.2 ≤ hi)
    (hapart : xs.Pairwise fun x y => x.2 ≤ y.1) : Ascending lo hi xs := by
  induction xs generalizing lo with
  | nil => exact hle
  | cons x xs ih =>
    obtain ⟨hfirst, hrest⟩ := List.pairwise_cons.mp hapart
    obtain ⟨hlow, hx, hhigh⟩ := hin x List.mem_cons_self
    refine ⟨hlow, hx, ih hhigh (fun y hy => ?_) hrest⟩
    exact ⟨hfirst y hy, (hin y (List.mem_cons_of_mem x hy)).2⟩

theorem fst_le_snd (h : Ascending lo hi rs) {r : Nat × Nat} (hr : r ∈ rs) : r.1 ≤ r.2 :=
  (h.sublist (List.singleton_sublist.mpr hr)).2.1

theorem pairwise (h : Ascending lo hi rs) : rs.Pairwise fun x y => x.1 ≤ y.1 := by
  induction rs generalizing lo with
  | nil => exact List.Pairwise.nil
  | cons r rs ih =>
    refine List.pairwise_cons.mpr ⟨fun y hy => ?_, ih h.2.2⟩
    have hlater := h.2.2.sublist (List.singleton_sublist.mpr hy)
    exact Nat.le_trans h.2.1 hlater.1

end Ascending

namespace Tree

def range (t : Tree) : Nat × Nat := (t.start, t.stop)

namespace WellNested

variable {s t : Tree}

theorem start_le_stop (h : t.WellNested) : t.start ≤ t.stop :=
  (h t (self_mem_nodes t)).start_le_stop

theorem ascending_children (h : t.WellNested) :
    Ascending t.start t.stop (t.children.map range) := by
  have hframed := h t (self_mem_nodes t)
  refine .of_pairwise hframed.start_le_stop ?_ (List.pairwise_map.mpr hframed.apart)
  intro r hr
  obtain ⟨c, hc, rfl⟩ := List.mem_map.mp hr
  have hin := hframed.encloses c hc
  exact ⟨hin.1, (h.of_mem (mem_nodes_of_mem_children hc)).start_le_stop, hin.2⟩

theorem ascending_namedChildren (h : t.WellNested) :
    Ascending t.start t.stop (t.namedChildren.map range) :=
  h.ascending_children.sublist (List.filter_sublist.map range)

/-- Ranges that ascend inside a node ascend inside every node around it. -/
theorem ascending_mono (h : t.WellNested) (hs : s ∈ t.nodes) {rs : List (Nat × Nat)}
    (hrs : Ascending s.start s.stop rs) : Ascending t.start t.stop rs := by
  have hin := h.encloses hs
  exact hrs.mono hin.1 hin.2

end WellNested

end Tree

namespace Cursor

theorem map_node_childrenFrom (c : Cursor) (before todo : List Tree) :
    (c.childrenFrom before todo).map (·.node) = todo := by
  induction todo generalizing before with
  | nil => rfl
  | cons t todo ih => rw [childrenFrom, List.map_cons, ih]

theorem map_node_children (c : Cursor) : c.children.map (·.node) = c.node.children :=
  map_node_childrenFrom c [] c.node.children

theorem map_node_namedChildren (c : Cursor) :
    c.namedChildren.map (·.node) = c.node.namedChildren := by
  rw [Tree.namedChildren, ← map_node_children, List.filter_map]
  rfl

theorem map_node_field? (c : Cursor) (role : String) :
    (c.field? role).map (·.node) = c.node.field? role := by
  rw [Tree.field?, ← map_node_children, List.find?_map]
  rfl

theorem ascending_children {c : Cursor} (h : c.node.WellNested) :
    Ascending c.node.start c.node.stop (c.children.map fun d => d.node.range) := by
  have hchildren := h.ascending_children
  rwa [← map_node_children, List.map_map] at hchildren

theorem ascending_namedChildren {c : Cursor} (h : c.node.WellNested) :
    Ascending c.node.start c.node.stop (c.namedChildren.map fun d => d.node.range) :=
  (ascending_children h).sublist (List.filter_sublist.map _)

end Cursor

/-! ## Items in order -/

/-- A symbol takes up the offset where it begins. -/
def Finding.range? (finding : Finding) : Option (Nat × Nat) :=
  finding.symbol?.map fun d => (d.start, d.start)

/-- A place where to look on takes up all of its node. -/
def Item.range? : Item → Option (Nat × Nat)
  | .found finding => finding.range?
  | .enter place _ => some place.node.range

/-- What the items take up lies between `lo` and `hi`, one after another. -/
structure InOrder (lo hi : Nat) (items : List Item) : Prop where
  ascending : Ascending lo hi (items.filterMap Item.range?)

/-- None of the items is a declaration or a place where to look on. -/
def Silent (items : List Item) : Prop := ∀ item ∈ items, item.range? = none

namespace Silent

theorem nil : Silent [] := by
  intro item hitem
  cases hitem

theorem singleton {item : Item} (h : item.range? = none) : Silent [item] := by
  intro other hother
  rw [List.mem_singleton.mp hother]
  exact h

theorem append {xs ys : List Item} (hx : Silent xs) (hy : Silent ys) : Silent (xs ++ ys) := by
  intro item hitem
  rcases List.mem_append.mp hitem with hitem | hitem
  · exact hx item hitem
  · exact hy item hitem

theorem flatMap {α : Type} {xs : List α} {f : α → List Item} (h : ∀ x, Silent (f x)) :
    Silent (xs.flatMap f) := by
  intro item hitem
  obtain ⟨x, _, hitem⟩ := List.mem_flatMap.mp hitem
  exact h x item hitem

theorem inherit (child parent : String) : Silent (Item.inherit child parent) := by
  intro item hitem
  simp only [Item.inherit] at hitem
  split at hitem
  · cases hitem
  · exact singleton rfl item hitem

theorem inherits {α : Type} (child : String) (xs : List α) (parent : α → String) :
    Silent (xs.flatMap fun x => Item.inherit child (parent x)) :=
  flatMap fun x => inherit child (parent x)

theorem imports {α : Type} (xs : List α) (f : α → Import) :
    Silent (xs.map fun x => Item.imports (f x)) := by
  intro item hitem
  obtain ⟨x, _, rfl⟩ := List.mem_map.mp hitem
  rfl

theorem packages {α : Type} (xs : List α) (f : α → String) :
    Silent (xs.map fun x => Item.found (.package (f x))) := by
  intro item hitem
  obtain ⟨x, _, rfl⟩ := List.mem_map.mp hitem
  rfl

end Silent

/-- The item declares a symbol that covers the node `t`. -/
def Item.DeclaredBy (t : Tree) (item : Item) : Prop :=
  ∃ src scope leaf kind signature docstring marks,
    item = declare src t scope leaf kind signature docstring marks

theorem Item.declaredBy_declare (src : String) (t : Tree) (scope : Scope) (leaf : String)
    (kind : SymbolKind) (signature : String) (docstring : Option String) (marks : List Mark) :
    (declare src t scope leaf kind signature docstring marks).DeclaredBy t :=
  ⟨src, scope, leaf, kind, signature, docstring, marks, rfl⟩

namespace InOrder

variable {src : String} {lo mid hi : Nat} {items xs ys : List Item} {t : Tree}

theorem nil (h : lo ≤ hi) : InOrder lo hi [] := ⟨h⟩

theorem mono {low high : Nat} (h : InOrder lo hi items) (hlow : low ≤ lo) (hhigh : hi ≤ high) :
    InOrder low high items :=
  ⟨h.ascending.mono hlow hhigh⟩

theorem silent (h : Silent items) (hle : lo ≤ hi) : InOrder lo hi items := by
  refine ⟨?_⟩
  rw [List.filterMap_eq_nil_iff.mpr h]
  exact hle

theorem append (hx : InOrder lo mid xs) (hy : InOrder mid hi ys) : InOrder lo hi (xs ++ ys) := by
  refine ⟨?_⟩
  rw [List.filterMap_append]
  exact hx.ascending.append hy.ascending

theorem silent_append (hx : Silent xs) (hy : InOrder lo hi ys) : InOrder lo hi (xs ++ ys) :=
  append (silent hx (Nat.le_refl lo)) hy

/-- What lies at or below a node may follow its declaration. -/
theorem declare {scope : Scope} {leaf : String} {kind : SymbolKind} {signature : String}
    {docstring : Option String} {marks : List Mark} (h : InOrder t.start hi items) :
    InOrder t.start hi (Item.declare src t scope leaf kind signature docstring marks :: items) :=
  ⟨Nat.le_refl _, Nat.le_refl _, h.ascending⟩

theorem of_declaredBy (hle : t.start ≤ t.stop) (h : ∀ item ∈ items, item.DeclaredBy t) :
    InOrder t.start t.stop items := by
  induction items with
  | nil => exact nil hle
  | cons item items ih =>
    obtain ⟨src, scope, leaf, kind, signature, docstring, marks, rfl⟩ := h item List.mem_cons_self
    exact declare (ih fun other hother => h other (List.mem_cons_of_mem _ hother))

/-- Declarations of one node, one for each element of a list. -/
theorem map {α : Type} {xs : List α} {f : α → Item} (hle : t.start ≤ t.stop)
    (h : ∀ x, (f x).DeclaredBy t) : InOrder t.start t.stop (xs.map f) := by
  refine of_declaredBy hle fun item hitem => ?_
  obtain ⟨x, _, rfl⟩ := List.mem_map.mp hitem
  exact h x

/-- Declarations of one node, one for each element of a list that has what it takes. -/
theorem filterMap_map {α β : Type} {xs : List α} {part? : α → Option β} {f : α → β → Item}
    (hle : t.start ≤ t.stop) (h : ∀ x y, (f x y).DeclaredBy t) :
    InOrder t.start t.stop (xs.filterMap fun x => (part? x).map (f x)) := by
  refine of_declaredBy hle fun item hitem => ?_
  obtain ⟨x, _, hitem⟩ := List.mem_filterMap.mp hitem
  obtain ⟨y, _, rfl⟩ := Option.map_eq_some_iff.mp hitem
  exact h x y

theorem enter {place : Cursor} (h : place.node.start ≤ place.node.stop) (scope : Scope) :
    InOrder place.node.start place.node.stop [.enter place scope] :=
  ⟨Nat.le_refl _, h, Nat.le_refl _⟩

/-- What is in order inside a node is in order inside every node around it. -/
theorem of_mem {s : Tree} (h : t.WellNested) (hs : s ∈ t.nodes)
    (hitems : InOrder s.start s.stop items) : InOrder t.start t.stop items :=
  ⟨h.ascending_mono hs hitems.ascending⟩

theorem within {place : Option Cursor} {scope : Scope} (h : t.WellNested)
    (hplace : ∀ p, place = some p → p.node ∈ t.nodes) :
    InOrder t.start t.stop (Item.within place scope) := by
  cases place with
  | none => exact nil h.start_le_stop
  | some p =>
    have hin := hplace p rfl
    exact of_mem h hin (enter (h.of_mem hin).start_le_stop scope)

theorem within_field {c : Cursor} (h : c.node.WellNested) (role : String) (scope : Scope) :
    InOrder c.node.start c.node.stop (Item.within (c.field? role) scope) :=
  within h fun _ hplace => (Cursor.leads_of_field? hplace).1

/-- Lists for nodes one after another, each in order inside its node. -/
theorem flatMap {α : Type} {range : α → Nat × Nat} {xs : List α} {f : α → List Item}
    (h : Ascending lo hi (xs.map range)) (hf : ∀ x ∈ xs, InOrder (range x).1 (range x).2 (f x)) :
    InOrder lo hi (xs.flatMap f) := by
  refine ⟨?_⟩
  rw [List.filterMap_flatMap]
  exact h.flatMap fun x hx => (hf x hx).ascending

theorem filterMap {α : Type} {node : α → Tree} {xs : List α} {f : α → Option Item}
    (h : Ascending lo hi (xs.map fun x => (node x).range))
    (hf : ∀ x ∈ xs, ∀ item, f x = some item → item.DeclaredBy (node x)) :
    InOrder lo hi (xs.filterMap f) := by
  rw [List.filterMap_eq_flatMap_toList]
  refine flatMap h fun x hx => ?_
  have hle : (node x).start ≤ (node x).stop := h.fst_le_snd (List.mem_map_of_mem hx)
  exact of_declaredBy hle fun item hitem => hf x hx item (Option.mem_toList.mp hitem)

/-- Declarations that the named children of a body make, inside any node around it. -/
theorem members {body : Option Cursor} {f : Cursor → Option Item} (h : t.WellNested)
    (hbody : ∀ b, body = some b → b.node ∈ t.nodes)
    (hf : ∀ m item, f m = some item → item.DeclaredBy m.node) :
    InOrder t.start t.stop (((body.map Cursor.namedChildren).getD []).filterMap f) := by
  cases body with
  | none => exact nil h.start_le_stop
  | some b =>
    have hb := hbody b rfl
    have hnamed := Cursor.ascending_namedChildren (h.of_mem hb)
    exact of_mem h hb (filterMap hnamed fun m _ => hf m)

/-- Declarations that some of the named children of a node make. -/
theorem parameters {q : Tree → Bool} {f : Tree → Option Item} (h : t.WellNested)
    (hf : ∀ p item, f p = some item → item.DeclaredBy p) :
    InOrder t.start t.stop ((t.namedChildren.filter q).filterMap f) := by
  have hnamed := h.ascending_namedChildren
  exact filterMap (hnamed.sublist (List.filter_sublist.map range)) fun p _ => hf p

/-- Parameters may be declared before a body is looked into, if they precede it. -/
theorem parameters_append_within {parameters : Option Tree} {body : Option Cursor}
    {q : Tree → Bool} {f : Tree → Option Item} {scope : Scope} (h : t.WellNested)
    (hparameters : ∀ p ∈ parameters, p ∈ t.nodes) (hbody : ∀ b ∈ body, b.node ∈ t.nodes)
    (hfirst : ∀ p ∈ parameters, ∀ b ∈ body, p.stop ≤ b.node.start)
    (hf : ∀ p item, f p = some item → item.DeclaredBy p) :
    InOrder t.start t.stop
      ((((parameters.map Tree.namedChildren).getD []).filter q).filterMap f ++
        Item.within body scope) := by
  cases parameters with
  | none => exact within h hbody
  | some p =>
    have hp := hparameters p rfl
    have hdeclared := parameters (q := q) (h.of_mem hp) hf
    cases body with
    | none =>
      have hend : InOrder t.stop t.stop (Item.within none scope) := nil (Nat.le_refl t.stop)
      exact append (of_mem h hp hdeclared) hend
    | some b =>
      have hb := hbody b rfl
      have hbefore : p.stop ≤ b.node.start := hfirst p rfl b rfl
      refine append (hdeclared.mono (h.encloses hp).1 hbefore) ?_
      exact (enter (h.of_mem hb).start_le_stop scope).mono (Nat.le_refl _) (h.encloses hb).2

end InOrder

/-! ## Runs -/

namespace Rule

/-- All that the rule lists for a node on which `P` holds is in order inside the node. -/
def Forward (P : Tree → Prop) (rule : Rule) : Prop :=
  ∀ scope c, c.node.WellNested → P c.node → InOrder c.node.start c.node.stop (rule scope c)

variable {src : String} {P : Tree → Prop} {rule : Rule}

theorem Forward.ascending_explore (h : rule.Forward P) (hlocal : rule.Local src) (levels : Nat)
    (scope : Scope) (place : Cursor) (hwell : place.node.WellNested)
    (hall : ∀ t ∈ place.node.nodes, P t) :
    Ascending place.node.start place.node.stop
      ((explore rule levels scope place).filterMap Finding.range?) := by
  induction levels generalizing scope place with
  | zero => exact hwell.start_le_stop
  | succ levels ih =>
    rw [explore_succ, List.filterMap_flatMap]
    refine (Cursor.ascending_children hwell).flatMap fun child hchild => ?_
    have hin := Cursor.mem_nodes_of_mem_children hchild
    have hwellChild := hwell.of_mem hin
    split
    · exact hwellChild.start_le_stop
    · next herror =>
      have hopen := isSealed_of_isError (t := child.node) (by simpa using herror)
      rw [List.filterMap_flatMap]
      -- each item leads to what ascends inside the range that it takes up
      refine (h scope child hwellChild (hall _ hin)).ascending.refine ?_ ?_
      · intro item hitem r hr
        cases item with
        | found finding =>
          have hrange : finding.range? = some r := hr
          obtain ⟨d, _, rfl⟩ := Option.map_eq_some_iff.mp hrange
          rw [follow, List.filterMap_cons_some hrange]
          exact ⟨Nat.le_refl _, Nat.le_refl _, Nat.le_refl _⟩
        | enter inner innerScope =>
          obtain rfl := Option.some.inj hr
          have hinner := mem_nodes_trans (hlocal scope child hopen _ hitem).1 hin
          exact ih innerScope inner (hwell.of_mem hinner) fun t ht =>
            hall t (mem_nodes_trans ht hinner)
      · intro item _ hnone
        cases item with
        | found finding =>
          have hrange : finding.range? = none := hnone
          rw [follow, List.filterMap_cons_none hrange, List.filterMap_nil]
        | enter inner innerScope => cases hnone

/-- **Symbols begin in order** if the rule that finds them goes forward. -/
theorem Forward.ascending_findings (h : rule.Forward P) (hlocal : rule.Local src) {root : Tree}
    (hwell : root.WellNested) (hall : ∀ t ∈ root.nodes, P t) :
    ((rule.findings root).filterMap Finding.symbol?).Pairwise fun a b => a.start ≤ b.start := by
  have hascending : Ascending root.start root.stop
      ((rule.findings root).filterMap Finding.range?) :=
    h.ascending_explore hlocal root.height {} (Cursor.root root) hwell hall
  have hranges : (rule.findings root).filterMap Finding.range? =
      ((rule.findings root).filterMap Finding.symbol?).map fun d => (d.start, d.start) :=
    List.map_filterMap.symm
  have hstarts := hascending.pairwise
  rw [hranges, List.pairwise_map] at hstarts
  exact hstarts

end Rule

end CodeOutline
