import CodeOutline.Proofs.Dialect.Rust
import CodeOutline.Proofs.Enclosure
import CodeOutline.Proofs.Inheritance
import CodeOutline.Proofs.Reaching

/-!
# Implementations of traits

An `impl` block with a trait gives an edge from the implementing type to the trait, and its members
are named after that type. Both names come from the text of the type. The members are always named
after the type in the scope of the block. The edge starts there too, unless the text is a path: then
it starts at the path as it is.

**Theorem (`impl_members_named_after_child_iff`).** Every member of such a block, in any scope, has
a symbol whose name is the name of the type in that scope, a dot, and the member's own name. This is
the child of the edge with the member's name exactly if nothing is around the block or the type is
not a path.
-/

namespace CodeOutline

/-- What is named in the scope inside a declaration is named after the declaration. -/
theorem Scope.qualify_inside (scope : Scope) (name : String) (container : Container)
    (leaf : String) :
    (scope.inside name container).qualify leaf = scope.qualify name ++ "." ++ leaf :=
  qualify_of_ne_nil (by simp [inside]) leaf

/-- A scope with something around it changes every name. -/
theorem Scope.qualify_eq_self_iff {scope : Scope} {name : String} :
    scope.qualify name = name ↔ scope.path = [] := by
  constructor
  · intro h
    by_contra hpath
    rw [qualify_of_ne_nil hpath] at h
    have hlength := congrArg String.length h
    simp only [String.length_append] at hlength
    have hdot : ".".length = 1 := rfl
    omega
  · exact fun h => qualify_nil h name

namespace Rust

variable {src : String} {root : Tree} {scope : Scope} {c body m : Cursor}
  {name type trait leaf : String}

/-! ## Blocks and their members -/

/-- Functions, constants and associated types. -/
def memberKinds : List String :=
  ["function_item", "function_signature_item", "const_item", "type_item", "associated_type"]

theorem isError_of_memberKinds {t : Tree} (h : t.kind ∈ memberKinds) : t.isError = false := by
  simp only [memberKinds, List.mem_cons, List.not_mem_nil, or_false] at h
  rcases h with h | h | h | h | h <;> simp [Tree.isError, h]

theorem rule_of_impl (hkind : c.node.kind = "impl_item") :
    rule src scope c = implItems src scope c := by
  simp only [rule, hkind]

theorem reaches_in_module (hreach : (rule src).Reaches root scope c)
    (hkind : c.node.kind = "mod_item") (hname : c.node.fieldText? src "name" = some name)
    (hbody : c.field? "body" = some body) (hm : m ∈ body.children)
    (hclear : m.node.isError = false) :
    (rule src).Reaches root (scope.inside name .file) m := by
  refine .inside hreach ?_ hm hclear
  simp [rule, hkind, moduleItems, hname, hbody, Item.within]

/-- Among the members of a type, each of these kinds declares a symbol. -/
theorem exists_symbol_of_member (hscope : scope.container = .type)
    (hkind : m.node.kind ∈ memberKinds) (hleaf : m.node.fieldText? src "name" = some leaf) :
    ∃ d, .found (.symbol d) ∈ rule src scope m ∧ d.Spans src m.node ∧
      d.symbol.name = scope.qualify leaf := by
  simp only [memberKinds, List.mem_cons, List.not_mem_nil, or_false] at hkind
  rcases hkind with hkind | hkind | hkind | hkind | hkind <;>
    simp only [rule, hkind, routineItems, constantItems, typeAliasItems, hleaf, hscope,
      reduceCtorEq, if_false, Option.toList_some, List.map_cons]
  all_goals exact ⟨_, List.mem_cons_self, ⟨rfl, rfl, rfl, rfl⟩, rfl⟩

/-- A block at a place that the rule comes to, with the texts of its type and its trait. -/
structure TraitImpl (src : String) (root : Tree) (scope : Scope) (c : Cursor)
    (type trait : String) : Prop where
  reached : (rule src).Reaches root scope c
  isImpl : c.node.kind = "impl_item"
  typed : c.node.fieldText? src "type" = some type
  implements : c.node.fieldText? src "trait" = some trait

/-- The trait that a block implements, without type arguments. -/
def implemented (trait : String) : String := Text.dropTypeArguments (Text.dropStart ['!'] trait)

theorem qualify_ne_empty {type : String} (h : type ≠ "") : scope.qualify type ≠ "" := by
  by_cases hpath : scope.path = []
  · rwa [Scope.qualify_nil hpath]
  · rw [Scope.qualify_of_ne_nil hpath]
    simp [h]

theorem owner_ne_empty {type : String} (h : type ≠ "") : owner scope type ≠ "" := by
  unfold owner
  split
  · exact h
  · exact qualify_ne_empty h

/-- The edge starts at the type in the scope of the block, unless there is such a scope and the type
is a path. -/
theorem owner_eq_qualify_iff :
    owner scope type = scope.qualify type ↔
      scope.path = [] ∨ Text.hasPart "::" type = false := by
  unfold owner
  split
  · next hpath => rw [eq_comm, Scope.qualify_eq_self_iff, hpath, Bool.true_eq_false, or_false]
  · next hpath => simp [hpath]

namespace TraitImpl

/-- The edges of a block: one from its type to its trait, if both have a name. -/
theorem mem_rule_iff (h : TraitImpl src root scope c type trait) {e : Inheritance} :
    .found (.inheritance e) ∈ rule src scope c ↔
      implementer type ≠ "" ∧ implemented trait ≠ "" ∧
        e = ⟨owner scope (implementer type), implemented trait⟩ := by
  rw [rule_of_impl h.isImpl, implItems, h.typed, h.implements]
  by_cases hname : implementer type = ""
  · simp [hname]
  · simp [hname, owner_ne_empty hname, Item.inherit, Item.within, implemented]

theorem reaches (h : TraitImpl src root scope c type trait) (hname : implementer type ≠ "")
    (hbody : c.field? "body" = some body) (hm : m ∈ body.children)
    (hclear : m.node.isError = false) :
    (rule src).Reaches root (scope.inside (implementer type) .type) m := by
  refine .inside h.reached ?_ hm hclear
  rw [rule_of_impl h.isImpl, implItems, h.typed, hbody]
  simp [Item.within, hname]

/-- The symbol of a member. -/
theorem exists_declared (h : TraitImpl src root scope c type trait) (hname : implementer type ≠ "")
    (hbody : c.field? "body" = some body) (hm : m ∈ body.children)
    (hkind : m.node.kind ∈ memberKinds) (hleaf : m.node.fieldText? src "name" = some leaf) :
    ∃ d ∈ dialect.declared src root, d.Spans src m.node ∧
      d.symbol.name = scope.qualify (implementer type) ++ "." ++ leaf := by
  have hscope : (scope.inside (implementer type) .type).container = .type := rfl
  obtain ⟨d, hd, hspans, hqualified⟩ := exists_symbol_of_member hscope hkind hleaf
  have hreach := h.reaches hname hbody hm (isError_of_memberKinds hkind)
  have hfound := local_rule.mem_findings_iff.mpr ⟨_, m, hreach, hd⟩
  rw [Scope.qualify_inside] at hqualified
  exact ⟨d, Dialect.mem_declared.mpr hfound, hspans, hqualified⟩

end TraitImpl

/-- **Members and edges.** A block gives the edge from its type to its trait, if both have a name.
Each member has a symbol named after the type in the scope of the block. That is the child of the
edge exactly if nothing is around the block or the type is not a path. -/
theorem impl_members_named_after_child_iff (h : TraitImpl src root scope c type trait) :
    (∀ e, .found (.inheritance e) ∈ rule src scope c ↔
      implementer type ≠ "" ∧ implemented trait ≠ "" ∧
        e = ⟨owner scope (implementer type), implemented trait⟩) ∧
    ∀ e, .found (.inheritance e) ∈ rule src scope c →
      e ∈ (dialect.contents src root).inheritances ∧
      ∀ body m leaf, c.field? "body" = some body → m ∈ body.children →
        m.node.kind ∈ memberKinds → m.node.fieldText? src "name" = some leaf →
        ∃ d ∈ dialect.declared src root, d.Spans src m.node ∧
          d.symbol.name = scope.qualify (implementer type) ++ "." ++ leaf ∧
          (d.symbol.name = e.child ++ "." ++ leaf ↔
            scope.path = [] ∨ Text.hasPart "::" (implementer type) = false) := by
  refine ⟨fun e => h.mem_rule_iff, fun e he => ⟨?_, ?_⟩⟩
  · exact Dialect.mem_inheritances.mpr (local_rule.mem_findings_iff.mpr ⟨scope, c, h.reached, he⟩)
  · intro body m leaf hbody hm hkind hleaf
    obtain ⟨hname, _, rfl⟩ := h.mem_rule_iff.mp he
    obtain ⟨d, hd, hspans, hqualified⟩ := h.exists_declared hname hbody hm hkind hleaf
    refine ⟨d, hd, hspans, hqualified, ?_⟩
    rw [hqualified, String.append_left_inj, String.append_left_inj, eq_comm, owner_eq_qualify_iff]

/-! ## A path inside a module -/

def implSource : String := "mod m \x7b impl T for a::B \x7b fn f() \x7b\x7d \x7d \x7d\n"

def functionF : Tree :=
  .node ⟨"function_item", true, false, false, none, 26, 35⟩
    [.node ⟨"fn", false, false, false, none, 26, 28⟩ [],
      .node ⟨"identifier", true, false, false, some "name", 29, 30⟩ [],
      .node ⟨"parameters", true, false, false, some "parameters", 30, 32⟩
        [.node ⟨"(", false, false, false, none, 30, 31⟩ [],
          .node ⟨")", false, false, false, none, 31, 32⟩ []],
      .node ⟨"block", true, false, false, some "body", 33, 35⟩
        [.node ⟨"\x7b", false, false, false, none, 33, 34⟩ [],
          .node ⟨"\x7d", false, false, false, none, 34, 35⟩ []]]

def implBody : Tree :=
  .node ⟨"declaration_list", true, false, false, some "body", 24, 37⟩
    [.node ⟨"\x7b", false, false, false, none, 24, 25⟩ [], functionF,
      .node ⟨"\x7d", false, false, false, none, 36, 37⟩ []]

/-- What stands before the body of the block. -/
def implHead : List Tree :=
  [.node ⟨"impl", false, false, false, none, 8, 12⟩ [],
    .node ⟨"type_identifier", true, false, false, some "trait", 13, 14⟩ [],
    .node ⟨"for", false, false, false, none, 15, 18⟩ [],
    .node ⟨"scoped_type_identifier", true, false, false, some "type", 19, 23⟩
      [.node ⟨"identifier", true, false, false, some "path", 19, 20⟩ [],
        .node ⟨"::", false, false, false, none, 20, 22⟩ [],
        .node ⟨"type_identifier", true, false, false, some "name", 22, 23⟩ []]]

def implBlock : Tree :=
  .node ⟨"impl_item", true, false, false, none, 8, 37⟩ (implHead ++ [implBody])

def moduleBody : Tree :=
  .node ⟨"declaration_list", true, false, false, some "body", 6, 39⟩
    [.node ⟨"\x7b", false, false, false, none, 6, 7⟩ [], implBlock,
      .node ⟨"\x7d", false, false, false, none, 38, 39⟩ []]

/-- What stands before the body of the module. -/
def moduleHead : List Tree :=
  [.node ⟨"mod", false, false, false, none, 0, 3⟩ [],
    .node ⟨"identifier", true, false, false, some "name", 4, 5⟩ []]

def moduleM : Tree :=
  .node ⟨"mod_item", true, false, false, none, 0, 39⟩ (moduleHead ++ [moduleBody])

def implFile : Tree := .node ⟨"source_file", true, false, false, none, 0, 40⟩ [moduleM]

def moduleAt : Cursor := (Cursor.root implFile).childAt [] moduleM []

def moduleBodyAt : Cursor := moduleAt.childAt moduleHead moduleBody []

def implAt : Cursor :=
  moduleBodyAt.childAt [.node ⟨"\x7b", false, false, false, none, 6, 7⟩ []] implBlock
    [.node ⟨"\x7d", false, false, false, none, 38, 39⟩ []]

def implBodyAt : Cursor := implAt.childAt implHead implBody []

def functionAt : Cursor :=
  implBodyAt.childAt [.node ⟨"\x7b", false, false, false, none, 24, 25⟩ []] functionF
    [.node ⟨"\x7d", false, false, false, none, 36, 37⟩ []]

def scopeM : Scope := ⟨["m"], .file⟩

theorem reaches_moduleAt : (rule implSource).Reaches implFile {} moduleAt :=
  .child (Cursor.childAt_mem_children rfl) rfl

theorem implAt_mem_children : implAt ∈ moduleBodyAt.children := Cursor.childAt_mem_children rfl

theorem traitImpl_implFile : TraitImpl implSource implFile scopeM implAt "a::B" "T" where
  reached := reaches_in_module reaches_moduleAt rfl (by decide +kernel) rfl implAt_mem_children rfl
  isImpl := rfl
  typed := by decide +kernel
  implements := by decide +kernel

theorem mem_rule_implAt : .found (.inheritance ⟨"a::B", "T"⟩) ∈ rule implSource scopeM implAt :=
  traitImpl_implFile.mem_rule_iff.mpr (by decide +kernel)

theorem functionAt_mem_children : functionAt ∈ implBodyAt.children :=
  Cursor.childAt_mem_children rfl

theorem fieldText?_functionF : functionAt.node.fieldText? implSource "name" = some "f" := by
  decide +kernel

/-- The edge starts at `a::B`, but the function is a member of `m.a::B`. -/
theorem impl_members_implFile :
    .found (.inheritance ⟨"a::B", "T"⟩) ∈ rule implSource scopeM implAt ∧
    ⟨"a::B", "T"⟩ ∈ (dialect.contents implSource implFile).inheritances ∧
    ∃ d ∈ dialect.declared implSource implFile, d.Spans implSource functionF ∧
      d.symbol.name = "m.a::B.f" ∧ d.symbol.name ≠ "a::B" ++ "." ++ "f" := by
  obtain ⟨_, hedge⟩ := impl_members_named_after_child_iff traitImpl_implFile
  obtain ⟨hfound, hmembers⟩ := hedge _ mem_rule_implAt
  obtain ⟨d, hd, hspans, hname, hiff⟩ :=
    hmembers implBodyAt functionAt "f" rfl functionAt_mem_children (by decide) fieldText?_functionF
  exact ⟨mem_rule_implAt, hfound, d, hd, hspans, hname.trans (by decide +kernel),
    hiff.not.mpr (by decide +kernel)⟩

/-- Not every member of a block is named after the child of its edge. -/
theorem member_not_named_after_child :
    ¬ ∀ src root scope c type trait e body m leaf, TraitImpl src root scope c type trait →
      .found (.inheritance e) ∈ rule src scope c → c.field? "body" = some body →
      m ∈ body.children → m.node.kind ∈ memberKinds → m.node.fieldText? src "name" = some leaf →
      ∃ s ∈ (dialect.contents src root).symbols, s.name = e.child ++ "." ++ leaf := by
  intro h
  obtain ⟨s, hs, hname⟩ := h _ _ _ _ _ _ _ implBodyAt functionAt "f" traitImpl_implFile
    mem_rule_implAt rfl functionAt_mem_children (by decide) fieldText?_functionF
  have hnames : (dialect.contents implSource implFile).symbols.map (·.name) =
      ["m", "m.a::B.f"] := by
    decide +kernel
  have hmem : s.name ∈ ["m", "m.a::B.f"] := hnames ▸ List.mem_map_of_mem hs
  rw [hname] at hmem
  revert hmem
  decide +kernel

end Rust

end CodeOutline
