import CodeOutline.Proofs.Dialect.Php
import CodeOutline.Proofs.Reaching
import CodeOutline.Proofs.SourceOrder
import Mathlib.Data.List.Perm.Basic

/-!
# Attributes of declarations

The attributes of a declaration stand in the groups of its attribute list. They are gathered from
the list and the named nodes below it, in preorder; each of these gives the attributes right below
it, the last one first.

**Theorem (`declared_marks_iff`).** The marks of a symbol come from the attributes that are gathered
from the attribute list of its declaration. Take a list in which attributes stand in groups and
nowhere else. If no group with attributes is an `ERROR` node, each attribute outside `ERROR` nodes
is gathered once. They come in source order, and without those of `ERROR` nodes, exactly if each
group holds at most one and no `ERROR` node holds any.
-/

namespace CodeOutline

open CodeOutline.Tree

/-! ## Lists put together -/

theorem length_flatMap_le {α β : Type} {u v : α → List β} {xs : List α}
    (hle : ∀ x ∈ xs, (v x).length ≤ (u x).length) :
    (xs.flatMap v).length ≤ (xs.flatMap u).length := by
  induction xs with
  | nil => exact Nat.le_refl _
  | cons x xs ih =>
    have hx := hle x List.mem_cons_self
    have hrest := ih fun y hy => hle y (List.mem_cons_of_mem x hy)
    rw [List.flatMap_cons, List.flatMap_cons, List.length_append, List.length_append]
    omega

/-- Two ways to fill in lists, of which one never gives less than the other, give the same whole
only if they agree everywhere. -/
theorem flatMap_eq_flatMap_iff {α β : Type} {u v : α → List β} {xs : List α}
    (hle : ∀ x ∈ xs, (v x).length ≤ (u x).length) :
    xs.flatMap u = xs.flatMap v ↔ ∀ x ∈ xs, u x = v x := by
  refine ⟨fun h => ?_, List.flatMap_congr⟩
  induction xs with
  | nil => simp
  | cons x xs ih =>
    have hx := hle x List.mem_cons_self
    have hxs : ∀ y ∈ xs, (v y).length ≤ (u y).length := fun y hy =>
      hle y (List.mem_cons_of_mem x hy)
    have hrest := length_flatMap_le hxs
    rw [List.flatMap_cons, List.flatMap_cons] at h
    have hlength := congrArg List.length h
    rw [List.length_append, List.length_append] at hlength
    obtain ⟨hhere, hafter⟩ := List.append_inj h (by omega)
    intro y hy
    rcases List.mem_cons.mp hy with rfl | hy
    · exact hhere
    · exact ih hxs hafter y hy

theorem flatMap_eq_filter {α : Type} {f : α → List α} {p : α → Bool} {xs : List α}
    (h : ∀ x ∈ xs, f x = if p x then [x] else []) : xs.flatMap f = xs.filter p := by
  induction xs with
  | nil => rfl
  | cons x xs ih =>
    rw [List.flatMap_cons, h x List.mem_cons_self, ih fun y hy => h y (List.mem_cons_of_mem x hy)]
    by_cases hx : p x = true
    · rw [if_pos hx, List.filter_cons_of_pos hx, List.singleton_append]
    · rw [if_neg hx, List.filter_cons_of_neg hx, List.nil_append]

/-- Nodes that begin one after another are the same backwards if there is one at most. -/
theorem reverse_eq_self_iff {l : List Tree} (h : l.Pairwise fun a b => a.start < b.start) :
    l.reverse = l ↔ l.length ≤ 1 := by
  constructor
  · intro hreverse
    have hback := List.pairwise_reverse.mpr h
    rw [hreverse] at hback
    match l, h, hback with
    | [], _, _ => exact Nat.zero_le 1
    | [a], _, _ => exact Nat.le_refl 1
    | a :: b :: rest, h, hback =>
      have hlt := (List.pairwise_cons.mp h).1 b List.mem_cons_self
      have hgt := (List.pairwise_cons.mp hback).1 b List.mem_cons_self
      omega
  · intro hlength
    match l, hlength with
    | [], _ => rfl
    | [a], _ => rfl

namespace Php

variable {src : String}

/-! ## Gathering attributes -/

def isAttribute (t : Tree) : Bool := t.named && t.kind == "attribute"

/-- The attributes right below a node. -/
def ownAttributes (t : Tree) : List Tree := t.children.filter isAttribute

mutual

/-- The nodes from which attributes are gathered: the node and the named nodes below it, in
preorder, without what stands in attributes. -/
def holders : Tree → List Tree
  | .node label children => .node label children :: holdersOf children

/-- The nodes of a list of trees from which attributes are gathered. -/
def holdersOf : List Tree → List Tree
  | [] => []
  | t :: ts => (if t.named && t.kind != "attribute" then holders t else []) ++ holdersOf ts

end

theorem holdersOf_eq_flatMap (ts : List Tree) :
    holdersOf ts = ts.flatMap fun t =>
      if t.named && t.kind != "attribute" then holders t else [] := by
  induction ts with
  | nil => rfl
  | cons t ts ih => rw [holdersOf, ih, List.flatMap_cons]

theorem deeper_eq_flatMap (ts : List Tree) :
    deeper ts = ts.flatMap fun t =>
      if t.named && t.kind != "attribute" then attributes t else [] := by
  induction ts with
  | nil => rfl
  | cons t ts ih => rw [deeper, ih, List.flatMap_cons]

theorem attributes_eq (t : Tree) :
    attributes t = (ownAttributes t).reverse ++ t.children.flatMap fun c =>
      if c.named && c.kind != "attribute" then attributes c else [] := by
  obtain ⟨label, children⟩ := t
  rw [attributes, deeper_eq_flatMap, children_node]
  rfl

/-- Every node gives the attributes right below it, the last one first. -/
theorem attributes_eq_flatMap (t : Tree) :
    attributes t = (holders t).flatMap fun holder => (ownAttributes holder).reverse := by
  induction t with
  | node label children ih =>
    rw [attributes_eq, holders, holdersOf_eq_flatMap, List.flatMap_cons, List.flatMap_assoc,
      children_node]
    congr 1
    refine List.flatMap_congr fun c hc => ?_
    split
    · exact ih c hc
    · rfl

theorem below_of_mem_attributes {a t : Tree} (h : a ∈ attributes t) :
    a.Below t ∧ a.kind = "attribute" := by
  induction t with
  | node label children ih =>
    rw [attributes_eq, List.mem_append, List.mem_reverse, List.mem_flatMap] at h
    rcases h with h | ⟨c, hc, h⟩
    · obtain ⟨ha, hkind⟩ := List.mem_filter.mp h
      simp only [isAttribute, Bool.and_eq_true, beq_iff_eq] at hkind
      exact ⟨⟨a, ha, self_mem_nodes a⟩, hkind.2⟩
    · split at h
      · obtain ⟨hbelow, hkind⟩ := ih c hc h
        exact ⟨⟨c, hc, hbelow.mem_nodes⟩, hkind⟩
      · cases h

/-! ## Groups -/

/-- Attributes stand in the groups right below a list, and nowhere else in it. -/
structure Grouped (list : Tree) : Prop where
  groups : ∀ g ∈ list.children, g.kind ≠ "attribute"
  members : ∀ g ∈ list.children, ∀ a ∈ g.children, a.kind = "attribute" →
    g.named = true ∧ a.named = true ∧ a.start < a.stop
  within : ∀ g ∈ list.children, ∀ a ∈ g.children, ∀ c ∈ a.children, ∀ s ∈ c.nodes,
    s.kind ≠ "attribute"

/-- The attributes below a list that are not in `ERROR` nodes, in source order. -/
def exposedAttributes (list : Tree) : List Tree :=
  list.exposed.filter fun t => t.kind == "attribute"

namespace Grouped

variable {list : Tree}

theorem attributes_eq (h : Grouped list) :
    attributes list = list.children.flatMap fun g => (ownAttributes g).reverse := by
  have hown : ownAttributes list = [] :=
    List.filter_eq_nil_iff.mpr fun g hg => by simp [isAttribute, h.groups g hg]
  rw [Php.attributes_eq, hown, List.reverse_nil, List.nil_append]
  refine List.flatMap_congr fun g hg => ?_
  have hkind : (g.kind != "attribute") = true := by simpa using h.groups g hg
  rw [hkind, Bool.and_true]
  by_cases hnamed : g.named = true
  · -- below the members of a group there are no attributes
    rw [if_pos hnamed, Php.attributes_eq, List.append_right_eq_self, List.flatMap_eq_nil_iff]
    intro a ha
    split
    · refine List.eq_nil_iff_forall_not_mem.mpr fun s hs => ?_
      obtain ⟨⟨c, hc, hin⟩, hs⟩ := below_of_mem_attributes hs
      exact h.within g hg a ha c hc s hin hs
    · rfl
  · have hnone : ownAttributes g = [] := List.filter_eq_nil_iff.mpr fun a ha hattribute => by
      simp only [isAttribute, Bool.and_eq_true, beq_iff_eq] at hattribute
      exact hnamed (h.members g hg a ha hattribute.2).1
    rw [if_neg hnamed, hnone, List.reverse_nil]

theorem exposedAttributes_eq (h : Grouped list) :
    exposedAttributes list =
      list.children.flatMap fun g => if g.isError then [] else ownAttributes g := by
  rw [exposedAttributes, exposed_eq_clearOf, clearOf_eq_flatMap, List.filter_flatMap]
  refine List.flatMap_congr fun g hg => ?_
  rw [clear_eq]
  split
  · rfl
  · rw [List.filter_cons_of_neg (by simpa using h.groups g hg), clearOf_eq_flatMap,
      List.filter_flatMap]
    refine flatMap_eq_filter fun a ha => ?_
    have hbelow : (clearOf a.children).filter (fun t => t.kind == "attribute") = [] := by
      refine List.filter_eq_nil_iff.mpr fun s hs => ?_
      rw [clearOf_eq_flatMap, List.mem_flatMap] at hs
      obtain ⟨c, hc, hs⟩ := hs
      simpa using h.within g hg a ha c hc s (mem_nodes_of_mem_clear hs)
    by_cases hkind : a.kind = "attribute"
    · have hnamed := (h.members g hg a ha hkind).2.1
      simp [clear_eq, isError, isAttribute, hkind, hnamed, hbelow]
    · rw [clear_eq]
      split <;> simp [isAttribute, hkind, hbelow]

theorem pairwise_ownAttributes (h : Grouped list) (hwell : list.WellNested) {g : Tree}
    (hg : g ∈ list.children) : (ownAttributes g).Pairwise fun a b => a.start < b.start := by
  have hframed := hwell g (mem_nodes_of_mem_children hg)
  refine (hframed.apart.sublist List.filter_sublist).imp_of_mem fun ha _ hapart => ?_
  obtain ⟨ha, hattribute⟩ := List.mem_filter.mp ha
  simp only [isAttribute, Bool.and_eq_true, beq_iff_eq] at hattribute
  exact Nat.lt_of_lt_of_le (h.members g hg _ ha hattribute.2).2.2 hapart

/-- Outside `ERROR` nodes each attribute is gathered once. -/
theorem perm_exposedAttributes (h : Grouped list)
    (hclear : ∀ g ∈ list.children, g.isError = true → ownAttributes g = []) :
    (attributes list).Perm (exposedAttributes list) := by
  rw [h.attributes_eq, h.exposedAttributes_eq]
  refine List.Perm.flatMap_left _ fun g hg => ?_
  split
  · next herror => rw [hclear g hg herror, List.reverse_nil]
  · exact List.reverse_perm _

/-- Attributes are gathered in source order if there is one in each group at most, and none in an
`ERROR` node. -/
theorem attributes_eq_exposedAttributes_iff (h : Grouped list) (hwell : list.WellNested) :
    attributes list = exposedAttributes list ↔ ∀ g ∈ list.children,
      (ownAttributes g).length ≤ 1 ∧ (g.isError = true → ownAttributes g = []) := by
  rw [h.attributes_eq, h.exposedAttributes_eq, flatMap_eq_flatMap_iff]
  · refine forall₂_congr fun g hg => ?_
    by_cases herror : g.isError = true
    · rw [if_pos herror, List.reverse_eq_nil_iff]
      constructor
      · intro hnone
        rw [hnone]
        exact ⟨Nat.zero_le 1, fun _ => rfl⟩
      · exact fun hnone => hnone.2 herror
    · rw [if_neg herror, reverse_eq_self_iff (h.pairwise_ownAttributes hwell hg)]
      exact ⟨fun hlength => ⟨hlength, fun h => absurd h herror⟩, And.left⟩
  · intro g _
    rw [List.length_reverse]
    split
    · exact Nat.zero_le _
    · exact Nat.le_refl _

end Grouped

/-! ## Marks of symbols -/

/-- A symbol that covers the node `t` and has its marks. -/
def MarkedBy (src : String) (t : Tree) (d : Declared) : Prop :=
  d.Spans src t ∧ d.symbol.marks = marks src t

theorem markedBy_declaration (c : Cursor) (scope : Scope) (name : String) (kind : SymbolKind)
    (signature : String) :
    (declaration src c scope name kind signature).Each (MarkedBy src c.node) :=
  ⟨⟨rfl, rfl, rfl, rfl⟩, rfl⟩

section Rule

variable {scope : Scope} {c : Cursor} {item : Item}

theorem markedBy_of_mem_typeItems (h : item ∈ typeItems src scope c) :
    item.Each (MarkedBy src c.node) := by
  unfold typeItems at h
  split at h
  · cases h
  · rcases List.mem_cons.mp h with rfl | h
    · exact markedBy_declaration ..
    · rcases List.mem_append.mp h with h | h
      · exact (silent_parents _ _).each h
      · exact Item.each_of_mem_within h

theorem markedBy_of_mem_routineItems (h : item ∈ routineItems src scope c) :
    item.Each (MarkedBy src c.node) := by
  unfold routineItems at h
  split at h
  · cases h
  · rcases List.mem_cons.mp h with rfl | h
    · exact markedBy_declaration ..
    · exact Item.each_of_mem_within h

theorem markedBy_of_mem_propertyItems (h : item ∈ propertyItems src scope c) :
    item.Each (MarkedBy src c.node) := by
  unfold propertyItems at h
  split at h
  · cases h
  · obtain ⟨element, _, hitem⟩ := List.mem_filterMap.mp h
    obtain ⟨name, _, rfl⟩ := Option.map_eq_some_iff.mp hitem
    exact markedBy_declaration ..

theorem markedBy_of_mem_constantItems (h : item ∈ constantItems src scope c) :
    item.Each (MarkedBy src c.node) := by
  obtain ⟨element, _, hitem⟩ := List.mem_filterMap.mp h
  obtain ⟨name, _, rfl⟩ := Option.map_eq_some_iff.mp hitem
  exact markedBy_declaration ..

theorem markedBy_of_mem_caseItems (h : item ∈ caseItems src scope c) :
    item.Each (MarkedBy src c.node) := by
  obtain ⟨name, _, rfl⟩ := List.mem_map.mp h
  exact markedBy_declaration ..

theorem markedBy_of_mem_namespaceItems (h : item ∈ namespaceItems src scope c) :
    item.Each (MarkedBy src c.node) := by
  rcases List.mem_append.mp h with h | h
  · exact (Silent.packages _ _).each h
  · exact Item.each_of_mem_within h

theorem markedBy_of_mem_rule (h : item ∈ rule src scope c) : item.Each (MarkedBy src c.node) := by
  unfold rule at h
  split at h
  · exact markedBy_of_mem_namespaceItems h
  · exact (Silent.imports _ id).each h
  iterate 4 · exact markedBy_of_mem_typeItems h
  iterate 2 · exact markedBy_of_mem_routineItems h
  · exact markedBy_of_mem_propertyItems h
  · exact markedBy_of_mem_constantItems h
  · exact markedBy_of_mem_caseItems h
  · split at h
    · exact (silent_traitItems _).each h
    · exact List.mem_singleton.mp h ▸ trivial
  · exact List.mem_singleton.mp h ▸ trivial

end Rule

/-- A symbol has the marks of the node that declares it. -/
theorem exists_marks_eq {root : Tree} {d : Declared} (hd : d ∈ dialect.declared src root) :
    ∃ t ∈ root.nodes, d.Spans src t ∧ d.symbol.marks = marks src t := by
  obtain ⟨scope, c, hreach, hitem⟩ :=
    anchored_rule.isLocal.mem_findings_iff.mp (Dialect.mem_declared.mp hd)
  exact ⟨c.node, (hreach.below_root anchored_rule.isLocal).mem_nodes, markedBy_of_mem_rule hitem⟩

/-- **Attributes.** A symbol has the marks of the attributes gathered from the attribute list of its
declaration, holder by holder and in each from the last to the first. In a list of groups these are
the attributes outside `ERROR` nodes, in another order, unless an `ERROR` node holds some. The order
is that of the source, and no attribute of an `ERROR` node is there, exactly if no group holds two
and no `ERROR` node one. -/
theorem declared_marks_iff {root : Tree} {d : Declared} (hd : d ∈ dialect.declared src root) :
    ∃ t ∈ root.nodes, d.Spans src t ∧
      (t.ofKind? "attribute_list" = none → d.symbol.marks = []) ∧
      ∀ list, t.ofKind? "attribute_list" = some list →
        d.symbol.marks = (attributes list).filterMap (mark? src) ∧
        attributes list = (holders list).flatMap (fun holder => (ownAttributes holder).reverse) ∧
        (Grouped list →
          ((∀ g ∈ list.children, g.isError = true → ownAttributes g = []) →
            (attributes list).Perm (exposedAttributes list)) ∧
          (list.WellNested →
            (attributes list = exposedAttributes list ↔ ∀ g ∈ list.children,
              (ownAttributes g).length ≤ 1 ∧ (g.isError = true → ownAttributes g = [])))) := by
  obtain ⟨t, ht, hspans, hmarks⟩ := exists_marks_eq hd
  refine ⟨t, ht, hspans, fun hnone => ?_, fun list hlist => ⟨?_, ?_, fun hgrouped => ⟨?_, ?_⟩⟩⟩
  · rw [hmarks, marks, hnone]
    rfl
  · rw [hmarks, marks, hlist]
    rfl
  · exact attributes_eq_flatMap list
  · exact hgrouped.perm_exposedAttributes
  · exact hgrouped.attributes_eq_exposedAttributes_iff

/-! ## Two attributes in one group -/

def attributedSource : String := "<?php\n#[A, B]\nclass C \x7b\x7d\n"

/-- The list `#[A, B]`. -/
def attributesAB : Tree :=
  .node ⟨"attribute_list", true, false, false, some "attributes", 6, 13⟩
    [.node ⟨"attribute_group", true, false, false, none, 6, 13⟩
      [.node ⟨"#[", false, false, false, none, 6, 8⟩ [],
        .node ⟨"attribute", true, false, false, none, 8, 9⟩
          [.node ⟨"name", true, false, false, none, 8, 9⟩ []],
        .node ⟨",", false, false, false, none, 9, 10⟩ [],
        .node ⟨"attribute", true, false, false, none, 11, 12⟩
          [.node ⟨"name", true, false, false, none, 11, 12⟩ []],
        .node ⟨"]", false, false, false, none, 12, 13⟩ []]]

def attributedDeclaration : Tree :=
  .node ⟨"class_declaration", true, false, false, none, 6, 24⟩
    [attributesAB, .node ⟨"class", false, false, false, none, 14, 19⟩ [],
      .node ⟨"name", true, false, false, some "name", 20, 21⟩ [],
      .node ⟨"declaration_list", true, false, false, some "body", 22, 24⟩ []]

def attributedProgram : Tree :=
  .node ⟨"program", true, false, false, none, 0, 25⟩
    [.node ⟨"php_tag", true, false, false, none, 0, 5⟩ [], attributedDeclaration]

/-- The class, with its attributes from the last to the first. -/
def attributedClass : Declared where
  symbol := {
    name := "C"
    kind := .classType
    signature := "class C"
    docstring := none
    marks := [{ name := "B" }, { name := "A" }]
    lineStart := 2
    lineEnd := 3 }
  leaf := "C"
  start := 6
  stop := 24

theorem attributedClass_mem :
    attributedClass ∈ dialect.declared attributedSource attributedProgram := by
  decide +kernel

theorem eq_attributedDeclaration {t : Tree} (ht : t ∈ attributedProgram.nodes)
    (hspans : attributedClass.Spans attributedSource t) : t = attributedDeclaration := by
  have hwide : attributedProgram.nodes.filter (fun t => t.start == 6 && t.stop == 24) =
      [attributedDeclaration] := rfl
  rw [← List.mem_singleton, ← hwide, List.mem_filter, ← hspans.start, ← hspans.stop]
  exact ⟨ht, rfl⟩

theorem grouped_attributesAB : Grouped attributesAB where
  groups := by decide
  members := by decide
  within := by decide

/-- The group of the class holds two attributes, so they are not in source order. -/
theorem declared_marks_attributedProgram :
    attributedClass ∈ dialect.declared attributedSource attributedProgram ∧
    attributedClass.symbol.marks = (attributes attributesAB).filterMap (mark? attributedSource) ∧
    (attributes attributesAB).Perm (exposedAttributes attributesAB) ∧
    attributes attributesAB ≠ exposedAttributes attributesAB := by
  obtain ⟨t, ht, hspans, _, hlist⟩ := declared_marks_iff attributedClass_mem
  obtain rfl := eq_attributedDeclaration ht hspans
  obtain ⟨hmarks, _, hgrouped⟩ := hlist attributesAB rfl
  obtain ⟨hperm, hiff⟩ := hgrouped grouped_attributesAB
  refine ⟨attributedClass_mem, hmarks, hperm (by decide), (hiff (by decide)).not.mpr ?_⟩
  decide

/-- Attributes are not always recorded in source order. -/
theorem attributes_of_group_reversed :
    ¬ ∀ src root, ∀ d ∈ dialect.declared src root, ∃ t ∈ root.nodes, d.Spans src t ∧
      d.symbol.marks = ((t.ofKind? "attribute_list").toList.flatMap exposedAttributes).filterMap
        (mark? src) := by
  intro h
  obtain ⟨t, ht, hspans, hmarks⟩ := h _ _ _ attributedClass_mem
  obtain rfl := eq_attributedDeclaration ht hspans
  revert hmarks
  decide +kernel

end Php

end CodeOutline
