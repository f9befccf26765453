import CodeOutline.Tree.Cursor
import Mathlib.Data.List.Pairwise

/-!
# Nodes and the bytes they cover

Rows of a source text grow with the offsets into it.

`Tree.nodes` lists the nodes of a tree in preorder, each with all that is below it. A node is
*sealed* when it is an `ERROR` node and plays no role in its parent; nothing is ever looked for
below such a node.

A tree is *well nested* when no node ends before it begins, and the children of each node lie inside
it, in order and without overlap. Then the ranges of two nodes are either disjoint or one inside the
other (`nested_of_common`): at the lowest place where the paths to the two nodes part, they go into
different children, which have no byte in common.
-/

namespace CodeOutline

/-! ## Rows -/

namespace Source

theorem le_rowFrom (offset row pos : Nat) (cs : List Char) : row ≤ rowFrom offset row pos cs := by
  induction cs generalizing row pos with
  | nil => exact Nat.le_refl _
  | cons c cs ih =>
    rw [rowFrom]
    split
    · exact Nat.le_trans (by split <;> omega) (ih _ _)
    · exact Nat.le_refl _

theorem rowFrom_mono {a b : Nat} (h : a ≤ b) (row pos : Nat) (cs : List Char) :
    rowFrom a row pos cs ≤ rowFrom b row pos cs := by
  induction cs generalizing row pos with
  | nil => exact Nat.le_refl _
  | cons c cs ih =>
    rw [rowFrom]
    split
    · next hpos =>
      rw [rowFrom, if_pos (Nat.lt_of_lt_of_le hpos h)]
      exact ih _ _
    · exact le_rowFrom b row pos (c :: cs)

/-- Rows grow with offsets. -/
theorem rowAt_mono (src : String) {a b : Nat} (h : a ≤ b) : rowAt src a ≤ rowAt src b :=
  rowFrom_mono h 0 0 src.toList

end Source

namespace Tree

/-- Induction over trees, with the hypothesis for every child. -/
@[elab_as_elim, induction_eliminator]
theorem inductionOn {motive : Tree → Prop}
    (node : ∀ label children, (∀ c ∈ children, motive c) → motive (.node label children))
    (t : Tree) : motive t := by
  obtain ⟨label, children⟩ := t
  exact node label children fun c _ => inductionOn node c
termination_by t.size
decreasing_by exact size_of_mem_children (by assumption)

@[simp] theorem children_node (label : Label) (children : List Tree) :
    (node label children).children = children := rfl

@[simp] theorem label_node (label : Label) (children : List Tree) :
    (node label children).label = label := rfl

/-! ## The nodes of a tree -/

mutual

/-- The nodes of a tree in preorder. -/
def nodes : Tree → List Tree
  | node label children => node label children :: nodesOf children

/-- The nodes of a list of trees in preorder. -/
def nodesOf : List Tree → List Tree
  | [] => []
  | t :: ts => t.nodes ++ nodesOf ts

end

theorem nodesOf_eq_flatMap (ts : List Tree) : nodesOf ts = ts.flatMap nodes := by
  induction ts with
  | nil => rfl
  | cons t ts ih => rw [nodesOf, ih, List.flatMap_cons]

theorem nodes_eq_cons (t : Tree) : t.nodes = t :: t.children.flatMap nodes := by
  obtain ⟨label, children⟩ := t
  rw [nodes, nodesOf_eq_flatMap, children_node]

theorem mem_nodes_iff {s t : Tree} : s ∈ t.nodes ↔ s = t ∨ ∃ c ∈ t.children, s ∈ c.nodes := by
  rw [nodes_eq_cons, List.mem_cons, List.mem_flatMap]

theorem self_mem_nodes (t : Tree) : t ∈ t.nodes := mem_nodes_iff.mpr (Or.inl rfl)

theorem mem_nodes_of_mem_children {c t : Tree} (h : c ∈ t.children) : c ∈ t.nodes :=
  mem_nodes_iff.mpr (Or.inr ⟨c, h, self_mem_nodes c⟩)

theorem mem_nodes_trans {r s t : Tree} (hr : r ∈ s.nodes) (hs : s ∈ t.nodes) : r ∈ t.nodes := by
  induction t with
  | node label children ih =>
    rcases mem_nodes_iff.mp hs with rfl | ⟨c, hc, hs⟩
    · exact hr
    · exact mem_nodes_iff.mpr (Or.inr ⟨c, hc, ih c hc hs⟩)

theorem mem_nodes_of_field? {role : String} {c t : Tree} (h : t.field? role = some c) :
    c ∈ t.nodes :=
  mem_nodes_of_mem_children (List.mem_of_find?_eq_some h)

theorem mem_nodes_of_ofKind? {kind : String} {c t : Tree} (h : t.ofKind? kind = some c) :
    c ∈ t.nodes :=
  mem_nodes_of_mem_children (List.mem_of_find?_eq_some h)

theorem mem_nodes_of_mem_namedChildren {c t : Tree} (h : c ∈ t.namedChildren) : c ∈ t.nodes :=
  mem_nodes_of_mem_children (List.mem_filter.mp h).1

/-! ## Sealed nodes -/

/-- An `ERROR` node without a role in its parent. -/
def isSealed (t : Tree) : Bool := t.isError && t.label.field.isNone

theorem isSealed_of_isError {t : Tree} (h : t.isError = false) : t.isSealed = false := by
  rw [isSealed, h, Bool.false_and]

theorem isSealed_of_kind {t : Tree} {kind : String} (h : t.kind = kind) (hk : kind ≠ "ERROR") :
    t.isSealed = false :=
  isSealed_of_isError (by simp [isError, h, hk])

theorem isSealed_of_role {t : Tree} {role : String} (h : (t.label.field == some role) = true) :
    t.isSealed = false := by
  simp [isSealed, beq_iff_eq.mp h]

theorem isSealed_of_field? {t c : Tree} {role : String} (h : t.field? role = some c) :
    c.isSealed = false := by
  have hrole := List.find?_some h
  exact isSealed_of_role hrole

theorem isSealed_of_mem_fields {t c : Tree} {role : String} (h : c ∈ t.fields role) :
    c.isSealed = false := by
  have hrole := (List.mem_filter.mp h).2
  exact isSealed_of_role hrole

theorem isSealed_of_mem_filter_kind {t : Tree} {ts : List Tree} {kind : String}
    (h : t ∈ ts.filter fun t => t.kind == kind) (hk : kind ≠ "ERROR") : t.isSealed = false := by
  have hkind := (List.mem_filter.mp h).2
  exact isSealed_of_kind (by simpa using hkind) hk

theorem isSealed_of_ofKind? {t c : Tree} {kind : String} (h : t.ofKind? kind = some c)
    (hk : kind ≠ "ERROR") : c.isSealed = false := by
  have hkind := List.find?_some h
  exact isSealed_of_kind (by simpa using hkind) hk

/-- Whether `s` is at or below `t` and not sealed. -/
def Leads (t s : Tree) : Prop := s ∈ t.nodes ∧ s.isSealed = false

theorem Leads.refl {t : Tree} (h : t.isSealed = false) : t.Leads t := ⟨self_mem_nodes t, h⟩

theorem Leads.of_mem {r s t : Tree} (hs : s ∈ t.nodes) (hr : s.Leads r) : t.Leads r :=
  ⟨mem_nodes_trans hr.1 hs, hr.2⟩

/-! ## Height -/

theorem height_lt_heights {c : Tree} {ts : List Tree} (h : c ∈ ts) : c.height < heights ts := by
  induction ts with
  | nil => simp at h
  | cons t ts ih =>
    rw [heights]
    rcases List.mem_cons.mp h with rfl | h
    · omega
    · exact Nat.lt_of_lt_of_le (ih h) (Nat.le_max_right ..)

theorem height_lt_of_mem_children {c t : Tree} (h : c ∈ t.children) : c.height < t.height := by
  obtain ⟨label, children⟩ := t
  rw [height]
  exact height_lt_heights h

theorem height_le_of_mem_nodes {s t : Tree} (h : s ∈ t.nodes) : s.height ≤ t.height := by
  induction t with
  | node label children ih =>
    rcases mem_nodes_iff.mp h with rfl | ⟨c, hc, h⟩
    · exact Nat.le_refl _
    · exact Nat.le_of_lt (Nat.lt_of_le_of_lt (ih c hc h) (height_lt_of_mem_children hc))

theorem children_eq_nil_of_height {t : Tree} (h : t.height = 0) : t.children = [] := by
  cases hc : t.children with
  | nil => rfl
  | cons c cs =>
    have hlt := height_lt_of_mem_children (c := c) (t := t) (by simp [hc])
    omega

/-! ## Ranges -/

/-- Whether the bytes of `s` are among those of `t`. -/
def Encloses (t s : Tree) : Prop := t.start ≤ s.start ∧ s.stop ≤ t.stop

instance (t s : Tree) : Decidable (t.Encloses s) :=
  inferInstanceAs (Decidable (t.start ≤ s.start ∧ s.stop ≤ t.stop))

theorem Encloses.refl (t : Tree) : t.Encloses t := ⟨Nat.le_refl _, Nat.le_refl _⟩

theorem Encloses.trans {r s t : Tree} (hs : t.Encloses s) (hr : s.Encloses r) : t.Encloses r :=
  ⟨Nat.le_trans hs.1 hr.1, Nat.le_trans hr.2 hs.2⟩

/-- A node whose range fits those of its children. -/
structure Framed (t : Tree) : Prop where
  start_le_stop : t.start ≤ t.stop
  encloses : ∀ c ∈ t.children, t.Encloses c
  apart : t.children.Pairwise fun a b => a.stop ≤ b.start

instance (t : Tree) : Decidable t.Framed :=
  decidable_of_iff (t.start ≤ t.stop ∧ (∀ c ∈ t.children, t.Encloses c) ∧
      t.children.Pairwise fun a b => a.stop ≤ b.start)
    ⟨fun ⟨h, hc, hp⟩ => ⟨h, hc, hp⟩, fun h => ⟨h.1, h.2, h.3⟩⟩

/-- Byte ranges are well formed all over the tree. -/
def WellNested (t : Tree) : Prop := ∀ s ∈ t.nodes, s.Framed

instance (t : Tree) : Decidable t.WellNested :=
  inferInstanceAs (Decidable (∀ s ∈ t.nodes, s.Framed))

theorem WellNested.of_mem {s t : Tree} (h : t.WellNested) (hs : s ∈ t.nodes) : s.WellNested :=
  fun _ hr => h _ (mem_nodes_trans hr hs)

theorem WellNested.encloses {s t : Tree} (h : t.WellNested) (hs : s ∈ t.nodes) :
    t.Encloses s := by
  induction t with
  | node label children ih =>
    rcases mem_nodes_iff.mp hs with rfl | ⟨c, hc, hs⟩
    · exact Encloses.refl _
    · have hframed := h _ (self_mem_nodes _)
      have hin := ih c hc (h.of_mem (mem_nodes_of_mem_children hc)) hs
      exact (hframed.encloses c hc).trans hin

/-- Two children of a node are the same, or one ends before the other begins. -/
theorem Framed.eq_or_apart {t c d : Tree} (h : t.Framed) (hc : c ∈ t.children)
    (hd : d ∈ t.children) : c = d ∨ c.stop ≤ d.start ∨ d.stop ≤ c.start := by
  by_cases heq : c = d
  · exact Or.inl heq
  · have : Std.Symm fun a b : Tree => a.stop ≤ b.start ∨ b.stop ≤ a.start := ⟨fun _ _ => Or.symm⟩
    have hpairs : t.children.Pairwise fun a b => a.stop ≤ b.start ∨ b.stop ≤ a.start :=
      h.apart.imp Or.inl
    exact Or.inr (hpairs.forall hc hd heq)

/-- **Ranges nest.** Of two nodes with a byte in common, one encloses the other. -/
theorem WellNested.nested_of_common {t a b : Tree} (h : t.WellNested) (ha : a ∈ t.nodes)
    (hb : b ∈ t.nodes) {offset : Nat} (hoa : a.start ≤ offset ∧ offset < a.stop)
    (hob : b.start ≤ offset ∧ offset < b.stop) : a.Encloses b ∨ b.Encloses a := by
  induction t with
  | node label children ih =>
    rcases mem_nodes_iff.mp ha with rfl | ⟨c, hc, hac⟩
    · exact Or.inl (h.encloses hb)
    rcases mem_nodes_iff.mp hb with rfl | ⟨d, hd, hbd⟩
    · exact Or.inr (h.encloses ha)
    have hwell : ∀ e ∈ children, e.WellNested := fun e he =>
      h.of_mem (mem_nodes_of_mem_children he)
    have hca := (hwell c hc).encloses hac
    have hdb := (hwell d hd).encloses hbd
    rcases (h _ (self_mem_nodes _)).eq_or_apart hc hd with rfl | hapart
    · exact ih c hc (hwell c hc) hac hbd
    · -- the offset would be in both children
      simp only [Encloses] at hca hdb
      omega

end Tree

end CodeOutline
