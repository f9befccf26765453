import CodeOutline.Proofs.Exploration

/-!
# Declarations inside declarations

The full name of a symbol is the path through the declarations around it. A rule keeps to this when
it lists a declaration before anything that stands in its scope. `Anchored` says so for a list of
items: going through the list, there is a stock of *owners*, which are scopes that are accounted
for, each with a node. An item in the scope of an owner must lie at or below the owner's node, and a
declaration adds its own scope to the stock. Places where to look on must not be sealed.

**Theorem (`housing_findings`).** If all that a rule lists is anchored, every symbol it finds in a
well-nested tree stands outside all others, or comes after a symbol that is named like the path to
it and whose lines include its lines.

The proof is an induction on the levels of the exploration. What is carried along is that each owner
is `Backed` by a symbol found before, one whose node encloses the owner's.
-/

namespace CodeOutline

open CodeOutline.Tree

/-! ## Anchored items -/

/-- A scope that items may stand in, and the node that it belongs to. -/
structure Owner where
  path : List String
  node : Tree

/-- Each item stands in the scope of an owner: one of those given, or an earlier declaration. -/
inductive Anchored (src : String) : List Owner → List Item → Prop
  | nil {owners : List Owner} : Anchored src owners []
  | declare {owners : List Owner} {rest : List Item} {owner : Owner} {span : Tree} {scope : Scope}
      {leaf : String} {kind : SymbolKind} {signature : String} {docstring : Option String}
      {marks : List Mark} :
      owner ∈ owners → scope.path = owner.path → span ∈ owner.node.nodes →
      Anchored src (⟨owner.path ++ [leaf], span⟩ :: owners) rest →
      Anchored src owners
        (Item.declare src span scope leaf kind signature docstring marks :: rest)
  | enter {owners : List Owner} {rest : List Item} {owner : Owner} {place : Cursor}
      {scope : Scope} :
      owner ∈ owners → scope.path = owner.path → owner.node.Leads place.node →
      Anchored src owners rest → Anchored src owners (.enter place scope :: rest)
  | found {owners : List Owner} {rest : List Item} {finding : Finding} :
      finding.symbol? = none → Anchored src owners rest →
      Anchored src owners (.found finding :: rest)

namespace Anchored

variable {src : String} {owners : List Owner}

theorem mono {others : List Owner} {items : List Item} (h : Anchored src owners items)
    (hsub : owners ⊆ others) : Anchored src others items := by
  induction h generalizing others with
  | nil => exact .nil
  | declare howner hpath hspan _ ih =>
    exact .declare (hsub howner) hpath hspan (ih (List.cons_subset_cons _ hsub))
  | enter howner hpath hplace _ ih => exact .enter (hsub howner) hpath hplace (ih hsub)
  | found hnone _ ih => exact .found hnone (ih hsub)

theorem append {xs ys : List Item} (hx : Anchored src owners xs) (hy : Anchored src owners ys) :
    Anchored src owners (xs ++ ys) := by
  induction hx with
  | nil => exact hy
  | declare howner hpath hspan _ ih =>
    exact .declare howner hpath hspan (ih (hy.mono (List.subset_cons_self ..)))
  | enter howner hpath hplace _ ih => exact .enter howner hpath hplace (ih hy)
  | found hnone _ ih => exact .found hnone (ih hy)

/-- Items of which none counts on another can be looked at one by one. -/
theorem of_forall {items : List Item} (h : ∀ item ∈ items, Anchored src owners [item]) :
    Anchored src owners items := by
  induction items with
  | nil => exact .nil
  | cons item rest ih =>
    exact (h item List.mem_cons_self).append (ih fun i hi => h i (List.mem_cons_of_mem _ hi))

theorem flatMap {α : Type} {xs : List α} {f : α → List Item}
    (h : ∀ x ∈ xs, Anchored src owners (f x)) : Anchored src owners (xs.flatMap f) := by
  induction xs with
  | nil => exact .nil
  | cons x xs ih =>
    rw [List.flatMap_cons]
    exact (h x List.mem_cons_self).append (ih fun y hy => h y (List.mem_cons_of_mem _ hy))

theorem within {owner : Owner} {place : Option Cursor} {scope : Scope} (howner : owner ∈ owners)
    (hpath : scope.path = owner.path) (hplace : ∀ p, place = some p → owner.node.Leads p.node) :
    Anchored src owners (Item.within place scope) := by
  cases place with
  | none => exact .nil
  | some p => exact .enter howner hpath (hplace p rfl) .nil

theorem inherit (child parent : String) : Anchored src owners (Item.inherit child parent) := by
  simp only [Item.inherit]
  split
  · exact .nil
  · exact .found rfl .nil

theorem inherits {α : Type} (child : String) (xs : List α) (parent : α → String) :
    Anchored src owners (xs.flatMap fun x => Item.inherit child (parent x)) :=
  flatMap fun x _ => inherit child (parent x)

theorem imports {α : Type} (xs : List α) (f : α → Import) :
    Anchored src owners (xs.map fun x => Item.imports (f x)) :=
  of_forall fun item hitem => by
    obtain ⟨x, _, rfl⟩ := List.mem_map.mp hitem
    exact .found rfl .nil

/-- Anchored items lie at or below the nodes of the owners. -/
theorem isLocal {items : List Item} {t : Tree} (h : Anchored src owners items)
    (howners : ∀ owner ∈ owners, owner.node ∈ t.nodes) : ∀ item ∈ items, item.Local src t := by
  induction h with
  | nil => simp
  | declare howner _ hspan _ ih =>
    have hin := mem_nodes_trans hspan (howners _ howner)
    intro item hitem
    rcases List.mem_cons.mp hitem with rfl | hitem
    · exact Item.local_declare hin ..
    · refine ih (fun owner hmem => ?_) item hitem
      rcases List.mem_cons.mp hmem with rfl | hmem
      · exact hin
      · exact howners owner hmem
  | enter howner _ hplace _ ih =>
    intro item hitem
    rcases List.mem_cons.mp hitem with rfl | hitem
    · exact hplace.of_mem (howners _ howner)
    · exact ih howners item hitem
  | @found _ _ finding hnone _ ih =>
    intro item hitem
    rcases List.mem_cons.mp hitem with rfl | hitem
    · cases finding with
      | symbol d => simp [Finding.symbol?] at hnone
      | _ => trivial
    · exact ih howners item hitem

end Anchored

/-- The owners that a rule is given at a place: the scope there, and the outermost one. -/
def Scope.owners (scope : Scope) (c : Cursor) : List Owner := [⟨scope.path, c.node⟩, ⟨[], c.node⟩]

theorem Scope.mem_owners (scope : Scope) (c : Cursor) : ⟨scope.path, c.node⟩ ∈ scope.owners c :=
  List.mem_cons_self

/-- All that the rule lists for a place stands in the scope there, or in one that it declares. -/
def Rule.Anchored (src : String) (rule : Rule) : Prop :=
  ∀ scope c, c.node.isSealed = false →
    CodeOutline.Anchored src (scope.owners c) (rule scope c)

theorem Rule.Anchored.isLocal {src : String} {rule : Rule} (h : rule.Anchored src) :
    rule.Local src := fun scope c hopen =>
  (h scope c hopen).isLocal fun owner howner => by
    have hnode : owner.node = c.node := by
      simp only [Scope.owners, List.mem_cons, List.not_mem_nil, or_false] at howner
      rcases howner with rfl | rfl <;> rfl
    exact hnode ▸ self_mem_nodes owner.node

/-! ## Runs -/

/-- The owner's scope is that of a symbol in `seen`, whose node encloses the owner's. -/
def Owner.Backed (src : String) (seen : List Declared) (owner : Owner) : Prop :=
  owner.path = [] ∨ ∃ d ∈ seen, d.symbol.name = ".".intercalate owner.path ∧
    ∃ span, d.Spans src span ∧ span.Encloses owner.node

theorem Owner.Backed.mono {src : String} {seen more : List Declared} {owner : Owner}
    (h : owner.Backed src seen) (hsub : seen ⊆ more) : owner.Backed src more := by
  rcases h with hnil | ⟨d, hd, h⟩
  · exact Or.inl hnil
  · exact Or.inr ⟨d, hsub hd, h⟩

/-- What backs an owner backs all nodes inside the owner's. -/
theorem Owner.Backed.inside {src : String} {seen : List Declared} {owner : Owner} {t : Tree}
    (h : owner.Backed src seen) (hin : owner.node.Encloses t) :
    Owner.Backed src seen ⟨owner.path, t⟩ := by
  rcases h with hnil | ⟨d, hd, hname, span, hspan, hencloses⟩
  · exact Or.inl hnil
  · exact Or.inr ⟨d, hd, hname, span, hspan, hencloses.trans hin⟩

/-- The symbol stands outside all others, or in one of `seen`, whose lines include its lines. -/
def Declared.Housed (seen : List Declared) (d : Declared) : Prop :=
  d.symbol.name = d.leaf ∨ ∃ p ∈ seen, d.symbol.name = p.symbol.name ++ "." ++ d.leaf ∧
    p.symbol.lineStart ≤ d.symbol.lineStart ∧ d.symbol.lineEnd ≤ p.symbol.lineEnd

/-- Each symbol stands in one of `seen` or in an earlier one of the list. -/
def Housing (seen : List Declared) : List Declared → Prop
  | [] => True
  | d :: ds => d.Housed seen ∧ Housing (d :: seen) ds

namespace Housing

variable {seen : List Declared}

theorem mono {more ds : List Declared} (h : Housing seen ds) (hsub : seen ⊆ more) :
    Housing more ds := by
  induction ds generalizing seen more with
  | nil => trivial
  | cons d ds ih =>
    refine ⟨?_, ih h.2 (List.cons_subset_cons d hsub)⟩
    rcases h.1 with hleaf | ⟨p, hp, h⟩
    · exact Or.inl hleaf
    · exact Or.inr ⟨p, hsub hp, h⟩

theorem append {xs ys : List Declared} (hx : Housing seen xs) (hy : Housing seen ys) :
    Housing seen (xs ++ ys) := by
  induction xs generalizing seen with
  | nil => exact hy
  | cons x xs ih => exact ⟨hx.1, ih hx.2 (hy.mono (List.subset_cons_self ..))⟩

theorem flatMap {α : Type} {xs : List α} {f : α → List Declared}
    (h : ∀ x ∈ xs, Housing seen (f x)) : Housing seen (xs.flatMap f) := by
  induction xs with
  | nil => trivial
  | cons x xs ih =>
    rw [List.flatMap_cons]
    exact (h x List.mem_cons_self).append (ih fun y hy => h y (List.mem_cons_of_mem _ hy))

/-- The place of the symbol that another stands in. -/
theorem exists_earlier {ds : List Declared} (h : Housing seen ds) {i : Nat} {d : Declared}
    (hd : ds[i]? = some d) : d.symbol.name = d.leaf ∨
      ∃ p, (p ∈ seen ∨ ∃ j, j < i ∧ ds[j]? = some p) ∧
        d.symbol.name = p.symbol.name ++ "." ++ d.leaf ∧
        p.symbol.lineStart ≤ d.symbol.lineStart ∧ d.symbol.lineEnd ≤ p.symbol.lineEnd := by
  induction ds generalizing seen i with
  | nil => simp at hd
  | cons e ds ih =>
    cases i with
    | zero =>
      obtain rfl : e = d := by simpa using hd
      rcases h.1 with hleaf | ⟨p, hp, h⟩
      · exact Or.inl hleaf
      · exact Or.inr ⟨p, Or.inl hp, h⟩
    | succ i =>
      rcases ih h.2 (by simpa using hd) with hleaf | ⟨p, hp, h⟩
      · exact Or.inl hleaf
      · refine Or.inr ⟨p, ?_, h⟩
        rcases hp with hp | ⟨j, hj, hp⟩
        · rcases List.mem_cons.mp hp with rfl | hp
          · exact Or.inr ⟨0, by omega, rfl⟩
          · exact Or.inl hp
        · exact Or.inr ⟨j + 1, by omega, by simpa using hp⟩

end Housing

namespace Scope

theorem qualify_nil {scope : Scope} (h : scope.path = []) (leaf : String) :
    scope.qualify leaf = leaf := by
  rw [qualify, h, List.nil_append, String.intercalate_singleton]

theorem intercalate_append_singleton {path : List String} (h : path ≠ []) (leaf : String) :
    ".".intercalate (path ++ [leaf]) = ".".intercalate path ++ "." ++ leaf := by
  induction path with
  | nil => exact absurd rfl h
  | cons name path ih =>
    cases path with
    | nil => simp
    | cons next path =>
      rw [List.cons_append, String.intercalate_cons_of_ne_nil (by simp), ih (by simp),
        String.intercalate_cons_cons]
      simp only [String.append_assoc]

theorem qualify_of_ne_nil {scope : Scope} (h : scope.path ≠ []) (leaf : String) :
    scope.qualify leaf = ".".intercalate scope.path ++ "." ++ leaf :=
  intercalate_append_singleton h leaf

end Scope

/-- A declaration in the scope of an owner that is backed stands in the symbol that backs it. -/
theorem Owner.Backed.housed {src : String} {seen : List Declared} {owner : Owner} {span : Tree}
    {scope : Scope} {d : Declared} (h : owner.Backed src seen) (hpath : scope.path = owner.path)
    (hin : owner.node.Encloses span) (hspan : d.Spans src span)
    (hname : d.symbol.name = scope.qualify d.leaf) : d.Housed seen := by
  by_cases hnil : scope.path = []
  · exact Or.inl (hname.trans (Scope.qualify_nil hnil d.leaf))
  · rcases h with hempty | ⟨p, hp, hpname, t, ht, hencloses⟩
    · exact absurd (hpath.trans hempty) hnil
    · have hall := hencloses.trans hin
      refine Or.inr ⟨p, hp, ?_, ?_, ?_⟩
      · rw [hname, Scope.qualify_of_ne_nil hnil, hpath, hpname]
      · rw [ht.lineStart, hspan.lineStart]
        exact Nat.succ_le_succ (Source.rowAt_mono src hall.1)
      · rw [ht.lineEnd, hspan.lineEnd]
        exact Nat.succ_le_succ (Source.rowAt_mono src hall.2)

/-- One list of items: given what its entered places lead to, it is housed. -/
theorem Anchored.housing {src : String} {rule : Rule} {levels : Nat}
    (hexplore : ∀ {scope place seen}, Owner.Backed src seen ⟨scope.path, place.node⟩ →
      place.node.WellNested →
      Housing seen ((Rule.explore rule levels scope place).filterMap Finding.symbol?))
    {owners : List Owner} {items : List Item} (h : Anchored src owners items)
    {seen : List Declared}
    (howners : ∀ owner ∈ owners, owner.Backed src seen ∧ owner.node.WellNested) :
    Housing seen ((items.flatMap (Rule.follow rule levels)).filterMap Finding.symbol?) := by
  induction h generalizing seen with
  | nil => trivial
  | @declare owners rest owner span scope leaf kind signature docstring marks howner hpath hspan
      _ ih =>
    obtain ⟨hbacked, hwell⟩ := howners owner howner
    rw [List.flatMap_cons, List.filterMap_append]
    refine ⟨hbacked.housed hpath (hwell.encloses hspan) ⟨rfl, rfl, rfl, rfl⟩ rfl, ih ?_⟩
    intro other hother
    rcases List.mem_cons.mp hother with rfl | hother
    · -- the new owner is backed by the symbol just declared
      refine ⟨Or.inr ⟨_, List.mem_cons_self, ?_, span, ⟨rfl, rfl, rfl, rfl⟩, Encloses.refl span⟩,
        hwell.of_mem hspan⟩
      rw [← hpath]
      rfl
    · exact ⟨(howners other hother).1.mono (List.subset_cons_self ..), (howners other hother).2⟩
  | @enter owners rest owner place scope howner hpath hplace _ ih =>
    obtain ⟨hbacked, hwell⟩ := howners owner howner
    rw [List.flatMap_cons, List.filterMap_append]
    refine Housing.append (hexplore ?_ (hwell.of_mem hplace.1)) (ih howners)
    rw [hpath]
    exact hbacked.inside (hwell.encloses hplace.1)
  | @found owners rest finding hnone _ ih =>
    rw [List.flatMap_cons, Rule.follow, List.singleton_append, List.filterMap_cons_none hnone]
    exact ih howners

theorem Rule.Anchored.housing_explore {src : String} {rule : Rule} (h : rule.Anchored src)
    (levels : Nat) {scope : Scope} {place : Cursor} {seen : List Declared}
    (hbacked : Owner.Backed src seen ⟨scope.path, place.node⟩) (hwell : place.node.WellNested) :
    Housing seen ((Rule.explore rule levels scope place).filterMap Finding.symbol?) := by
  induction levels generalizing scope place seen with
  | zero => trivial
  | succ levels ih =>
    rw [Rule.explore_succ, List.filterMap_flatMap]
    refine Housing.flatMap fun child hchild => ?_
    have hin := Cursor.mem_nodes_of_mem_children hchild
    split
    · trivial
    · next herror =>
      have hopen := isSealed_of_isError (t := child.node) (by simpa using herror)
      refine (h scope child hopen).housing ih fun owner howner => ?_
      simp only [Scope.owners, List.mem_cons, List.not_mem_nil, or_false] at howner
      rcases howner with rfl | rfl
      · exact ⟨hbacked.inside (hwell.encloses hin), hwell.of_mem hin⟩
      · exact ⟨Or.inl rfl, hwell.of_mem hin⟩

/-- **Every symbol is housed** that an anchored rule finds in a well-nested tree. -/
theorem Rule.Anchored.housing_findings {src : String} {rule : Rule} (h : rule.Anchored src)
    {root : Tree} (hwell : root.WellNested) :
    Housing [] ((rule.findings root).filterMap Finding.symbol?) :=
  h.housing_explore root.height (Or.inl rfl) hwell

end CodeOutline
