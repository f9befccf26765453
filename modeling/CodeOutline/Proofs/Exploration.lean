import CodeOutline.Dialect.Basic
import CodeOutline.Proofs.Nodes
import Mathlib.Data.List.Basic

/-!
# What a rule finds in a tree

A rule is *local* when all it lists for a place lies at or below that place: each symbol covers a
node there, and the places where to look on are nodes there that are not sealed. All dialects have
local rules.

**Runs.** `explore_induction` carries a fact from one application of a rule to all that the rule
finds in a tree. With it, the symbols that a local rule finds cover nodes of the tree
(`Local.spans`).

**Levels.** `Rule.explore` goes down a given number of levels. A local rule comes to its end after
as many levels as the tree has, so more of them change nothing (`Local.explore_congr`).
-/

namespace CodeOutline

open CodeOutline.Tree

namespace Cursor

variable {c d : Cursor}

theorem node_mem_children (h : d ∈ c.children) : d.node ∈ c.node.children :=
  node_mem_of_mem_childrenFrom h

theorem mem_nodes_of_mem_children (h : d ∈ c.children) : d.node ∈ c.node.nodes :=
  Tree.mem_nodes_of_mem_children (node_mem_children h)

theorem mem_nodes_of_mem_namedChildren (h : d ∈ c.namedChildren) : d.node ∈ c.node.nodes :=
  mem_nodes_of_mem_children (List.mem_filter.mp h).1

theorem leads_of_field? {role : String} (h : c.field? role = some d) : c.node.Leads d.node := by
  have hrole := List.find?_some h
  exact ⟨mem_nodes_of_mem_children (List.mem_of_find?_eq_some h), isSealed_of_role hrole⟩

theorem leads_of_ofKind? {kind : String} (h : c.ofKind? kind = some d) (hk : kind ≠ "ERROR") :
    c.node.Leads d.node := by
  have hkind := List.find?_some h
  exact ⟨mem_nodes_of_mem_children (List.mem_of_find?_eq_some h),
    isSealed_of_kind (by simpa using hkind) hk⟩

end Cursor

/-- The symbols that a file declares, with what their declarations cover. -/
def Dialect.declared (d : Dialect) (src : String) (root : Tree) : List Declared :=
  ((d.rule src).findings root).filterMap Finding.symbol?

theorem Finding.mem_filterMap_symbol? {d : Declared} {findings : List Finding} :
    d ∈ findings.filterMap Finding.symbol? ↔ .symbol d ∈ findings := by
  rw [List.mem_filterMap]
  constructor
  · rintro ⟨finding, hfinding, hsymbol⟩
    cases finding with
    | symbol e => exact Option.some.inj hsymbol ▸ hfinding
    | _ => simp [Finding.symbol?] at hsymbol
  · exact fun h => ⟨_, h, rfl⟩

theorem Dialect.mem_declared {d : Dialect} {src : String} {root : Tree} {s : Declared} :
    s ∈ d.declared src root ↔ .symbol s ∈ (d.rule src).findings root :=
  Finding.mem_filterMap_symbol?

/-! ## Runs -/

namespace Rule

/-- What one item of a rule leads to, going down at most `levels` levels. -/
def follow (rule : Rule) (levels : Nat) : Item → List Finding
  | .found finding => [finding]
  | .enter inner scope => explore rule levels scope inner

theorem explore_succ (rule : Rule) (levels : Nat) (scope : Scope) (place : Cursor) :
    explore rule (levels + 1) scope place = place.children.flatMap fun child =>
      if child.node.isError then [] else (rule scope child).flatMap (follow rule levels) := by
  rw [explore]
  rfl

/-- What holds of everything that one application of a rule finds, at each place that the rule can
come to, holds of everything found. Each application may use that all it finds is in `all`. -/
theorem explore_induction_among {rule : Rule} (all : List Finding)
    (Reached : Scope → Cursor → Prop) (P : Finding → Prop)
    (hfound : ∀ scope place child finding, Reached scope place → child ∈ place.children →
      child.node.isError = false → (∀ other, .found other ∈ rule scope child → other ∈ all) →
      .found finding ∈ rule scope child → P finding)
    (henter : ∀ scope place child inner innerScope, Reached scope place → child ∈ place.children →
      child.node.isError = false → (∀ other, .found other ∈ rule scope child → other ∈ all) →
      .enter inner innerScope ∈ rule scope child → Reached innerScope inner)
    (levels : Nat) (scope : Scope) (place : Cursor) (hplace : Reached scope place)
    (hall : ∀ finding ∈ explore rule levels scope place, finding ∈ all) :
    ∀ finding ∈ explore rule levels scope place, P finding := by
  induction levels generalizing scope place with
  | zero => simp [explore]
  | succ levels ih =>
    intro finding hfinding
    rw [explore_succ] at hfinding hall
    obtain ⟨child, hchild, hfinding⟩ := List.mem_flatMap.mp hfinding
    split at hfinding
    · simp at hfinding
    · next herror =>
      have hclear : child.node.isError = false := by simpa using herror
      have hbelow : ∀ item ∈ rule scope child, ∀ other ∈ follow rule levels item, other ∈ all := by
        intro item hitem other hother
        refine hall other (List.mem_flatMap.mpr ⟨child, hchild, ?_⟩)
        rw [if_neg herror]
        exact List.mem_flatMap.mpr ⟨item, hitem, hother⟩
      have hlisted : ∀ other, .found other ∈ rule scope child → other ∈ all :=
        fun other hother => hbelow _ hother other (List.mem_singleton.mpr rfl)
      obtain ⟨item, hitem, hfinding⟩ := List.mem_flatMap.mp hfinding
      cases item with
      | found other =>
        rw [follow, List.mem_singleton] at hfinding
        exact hfinding ▸ hfound scope place child other hplace hchild hclear hlisted hitem
      | enter inner innerScope =>
        have hinner := henter scope place child inner innerScope hplace hchild hclear hlisted hitem
        exact ih innerScope inner hinner (hbelow _ hitem) finding hfinding

theorem explore_induction {rule : Rule} (Reached : Scope → Cursor → Prop) (P : Finding → Prop)
    (hfound : ∀ scope place child finding, Reached scope place → child ∈ place.children →
      child.node.isError = false → .found finding ∈ rule scope child → P finding)
    (henter : ∀ scope place child inner innerScope, Reached scope place → child ∈ place.children →
      child.node.isError = false → .enter inner innerScope ∈ rule scope child →
      Reached innerScope inner)
    (levels : Nat) (scope : Scope) (place : Cursor) (hplace : Reached scope place) :
    ∀ finding ∈ explore rule levels scope place, P finding :=
  explore_induction_among _ Reached P
    (fun scope place child finding hplace hchild hclear _ =>
      hfound scope place child finding hplace hchild hclear)
    (fun scope place child inner innerScope hplace hchild hclear _ =>
      henter scope place child inner innerScope hplace hchild hclear)
    levels scope place hplace fun _ hfinding => hfinding

end Rule

/-! ## Local rules -/

/-- The symbol was declared by the node `t`. -/
structure Declared.Spans (src : String) (d : Declared) (t : Tree) : Prop where
  start : d.start = t.start
  stop : d.stop = t.stop
  lineStart : d.symbol.lineStart = t.startRow src + 1
  lineEnd : d.symbol.lineEnd = t.stopRow src + 1

/-- The item lies at or below the node `t`. -/
def Item.Local (src : String) (t : Tree) : Item → Prop
  | .found (.symbol d) => ∃ s ∈ t.nodes, d.Spans src s
  | .found _ => True
  | .enter place _ => t.Leads place.node

namespace Item

variable {src : String} {t : Tree}

theorem local_declare {span : Tree} (h : span ∈ t.nodes) (scope : Scope) (leaf : String)
    (kind : SymbolKind) (signature : String) (docstring : Option String) (marks : List Mark) :
    (declare src span scope leaf kind signature docstring marks).Local src t :=
  ⟨span, h, ⟨rfl, rfl, rfl, rfl⟩⟩

theorem local_of_mem_inherit {child parent : String} {item : Item}
    (h : item ∈ inherit child parent) : item.Local src t := by
  simp only [inherit] at h
  split at h
  · simp at h
  · obtain rfl := List.mem_singleton.mp h
    trivial

theorem local_of_mem_within {place : Option Cursor} {scope : Scope} {item : Item}
    (hplace : ∀ p, place = some p → t.Leads p.node) (h : item ∈ within place scope) :
    item.Local src t := by
  obtain ⟨p, hp, rfl⟩ := List.mem_map.mp h
  exact hplace p (by simpa using hp)

end Item

namespace Rule

/-- All that the rule lists for a place lies at or below it. -/
def Local (src : String) (rule : Rule) : Prop :=
  ∀ scope c, c.node.isSealed = false → ∀ item ∈ rule scope c, item.Local src c.node

namespace Local

variable {src : String} {rule : Rule}

/-- What is found below a place was declared by nodes there. -/
theorem spans_explore (h : rule.Local src) {levels : Nat} {scope : Scope} {place : Cursor}
    {d : Declared} (hd : .symbol d ∈ explore rule levels scope place) :
    ∃ s ∈ place.node.nodes, d.Spans src s := by
  refine explore_induction (fun _ inner => inner.node ∈ place.node.nodes)
    (fun finding => (Item.found finding).Local src place.node) ?_ ?_ levels scope place
    (self_mem_nodes place.node) _ hd
  · intro scope inner child finding hinner hchild hclear hitem
    have hlocal := h scope child (isSealed_of_isError hclear) _ hitem
    have hin := mem_nodes_trans (Cursor.mem_nodes_of_mem_children hchild) hinner
    cases finding with
    | symbol d =>
      obtain ⟨s, hs, hspans⟩ := hlocal
      exact ⟨s, mem_nodes_trans hs hin, hspans⟩
    | _ => trivial
  · intro scope inner child next nextScope hinner hchild hclear hitem
    have hlocal := h scope child (isSealed_of_isError hclear) _ hitem
    exact mem_nodes_trans hlocal.1
      (mem_nodes_trans (Cursor.mem_nodes_of_mem_children hchild) hinner)

/-- **Symbols cover nodes.** Every symbol that a local rule finds was declared by a node of the
tree. -/
theorem spans (h : rule.Local src) (root : Tree) {d : Declared}
    (hd : .symbol d ∈ rule.findings root) : ∃ s ∈ root.nodes, d.Spans src s :=
  h.spans_explore hd

theorem children_eq_nil_of_height_le {place : Cursor} (h : place.node.height ≤ 0) :
    place.children = [] := by
  rw [Cursor.children, children_eq_nil_of_height (Nat.le_zero.mp h)]
  rfl

/-- **Levels do not matter** as long as there are as many as the tree has below the place. -/
theorem explore_congr (h : rule.Local src) {n m : Nat} {scope : Scope} {place : Cursor}
    (hn : place.node.height ≤ n) (hm : place.node.height ≤ m) :
    explore rule n scope place = explore rule m scope place := by
  induction n generalizing m scope place with
  | zero =>
    have hchildren := children_eq_nil_of_height_le hn
    cases m with
    | zero => rfl
    | succ m => simp [explore, hchildren]
  | succ n ih =>
    cases m with
    | zero =>
      simp [explore, children_eq_nil_of_height_le hm]
    | succ m =>
      rw [explore_succ, explore_succ]
      refine List.flatMap_congr fun child hchild => ?_
      have hlt := height_lt_of_mem_children (Cursor.node_mem_children hchild)
      split
      · rfl
      · next herror =>
        have hopen := isSealed_of_isError (t := child.node) (by simpa using herror)
        refine List.flatMap_congr fun item hitem => ?_
        cases item with
        | found finding => rfl
        | enter inner innerScope =>
          have hle : inner.node.height ≤ child.node.height :=
            height_le_of_mem_nodes (h scope child hopen _ hitem).1
          exact ih (by omega) (by omega)

end Local

end Rule

end CodeOutline
