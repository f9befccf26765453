import CodeOutline.Proofs.Ordering
import Mathlib.Data.List.TakeWhile

/-!
# Edges from types to their parents

An edge goes from a type to one of its parents. It is *anchored* when the type is declared in the
file, and its parent is *bare* when it is a name without blanks around it and without lists of type
arguments.

All edges are made by `Item.inherit`, which gives bare parents. `EdgesFrom T items` says that the
edges in a list of items go from names in `T` to bare names. It is kept by all the ways in which
rules build their lists, so each rule needs one lemma for each of its lists.

**Runs.** A rule is *rooted* when each edge it lists goes from a type that is declared in the same
list, or from the scope at hand if that is trusted. A scope is trusted only as long as it is that of
a type. `Rooted.findings` carries this to all that the rule finds in a tree.
-/

namespace CodeOutline

open CodeOutline.Tree

/-! ## Bare names -/

/-- A name without blanks around it and without type arguments. -/
structure BareName (name : String) : Prop where
  ne_empty : name ≠ ""
  first : ∀ c ∈ name.toList.head?, Text.isBlank c = false
  last : ∀ c ∈ name.toList.getLast?, Text.isBlank c = false
  no_angle : '<' ∉ name.toList
  no_square : '[' ∉ name.toList

namespace Chars

open Text (isBlank)

theorem ne_of_mem_outsideBrackets {depth : Nat} {cs : List Char} {c : Char}
    (h : c ∈ outsideBrackets depth cs) : c ≠ '<' ∧ c ≠ '[' := by
  induction cs generalizing depth with
  | nil => simp [outsideBrackets] at h
  | cons d cs ih =>
    rw [outsideBrackets] at h
    split at h
    · exact ih h
    · next hopener =>
      split at h
      · exact ih h
      · split at h
        · rcases List.mem_cons.mp h with rfl | h
          · exact not_or.mp hopener
          · exact ih h
        · exact ih h

theorem prefix_dropEndWhile (p : Char → Bool) (cs : List Char) : dropEndWhile p cs <+: cs := by
  rw [dropEndWhile, ← List.reverse_suffix, List.reverse_reverse]
  exact List.dropWhile_suffix p

theorem getLast?_dropEndWhile {p : Char → Bool} {cs : List Char} {c : Char}
    (h : (dropEndWhile p cs).getLast? = some c) : p c = false := by
  rw [dropEndWhile, List.getLast?_reverse] at h
  have hhead := List.head?_dropWhile_not p cs.reverse
  rw [h] at hhead
  exact hhead

theorem head?_dropWhile {p : Char → Bool} {cs : List Char} {c : Char}
    (h : (cs.dropWhile p).head? = some c) : p c = false := by
  have hhead := List.head?_dropWhile_not p cs
  rw [h] at hhead
  exact hhead

theorem mem_of_mem_trim {cs : List Char} {c : Char} (h : c ∈ trim cs) : c ∈ cs :=
  (List.dropWhile_suffix isBlank).mem ((prefix_dropEndWhile isBlank _).mem h)

theorem head?_trim {cs : List Char} {c : Char} (h : (trim cs).head? = some c) :
    isBlank c = false := by
  obtain ⟨rest, hrest⟩ := prefix_dropEndWhile isBlank (cs.dropWhile isBlank)
  have hfirst : (cs.dropWhile isBlank).head? = some c := by
    rw [trim] at h
    rw [← hrest, List.head?_append, h]
    rfl
  exact head?_dropWhile hfirst

end Chars

theorem bareName_dropTypeArguments {s : String} (h : Text.dropTypeArguments s ≠ "") :
    BareName (Text.dropTypeArguments s) := by
  have hchars : (Text.dropTypeArguments s).toList =
      Chars.trim (Chars.outsideBrackets 0 s.toList) := by
    simp [Text.dropTypeArguments, Text.trim]
  refine ⟨h, ?_, ?_, ?_, ?_⟩ <;> rw [hchars]
  · exact fun c hc => Chars.head?_trim hc
  · exact fun c hc => Chars.getLast?_dropEndWhile hc
  · exact fun hc => (Chars.ne_of_mem_outsideBrackets (Chars.mem_of_mem_trim hc)).1 rfl
  · exact fun hc => (Chars.ne_of_mem_outsideBrackets (Chars.mem_of_mem_trim hc)).2 rfl

/-! ## Edges in a list of items -/

/-- The edges in the list go from names in `T` to bare names. -/
def EdgesFrom (T : String → Prop) (items : List Item) : Prop :=
  ∀ i, .found (.inheritance i) ∈ items → T i.child ∧ BareName i.parent

namespace EdgesFrom

variable {T : String → Prop} {xs ys items : List Item}

theorem nil : EdgesFrom T [] := by
  intro i hi
  cases hi

theorem mono {T' : String → Prop} (h : EdgesFrom T items) (hT : ∀ name, T name → T' name) :
    EdgesFrom T' items :=
  fun i hi => ⟨hT _ (h i hi).1, (h i hi).2⟩

theorem append (hx : EdgesFrom T xs) (hy : EdgesFrom T ys) : EdgesFrom T (xs ++ ys) := by
  intro i hi
  rcases List.mem_append.mp hi with hi | hi
  · exact hx i hi
  · exact hy i hi

theorem flatMap {α : Type} {f : α → List Item} {as : List α} (h : ∀ a ∈ as, EdgesFrom T (f a)) :
    EdgesFrom T (as.flatMap f) := by
  intro i hi
  obtain ⟨a, ha, hi⟩ := List.mem_flatMap.mp hi
  exact h a ha i hi

/-- Items that are no edges. -/
theorem of_forall (h : ∀ item ∈ items, ∀ i, item ≠ .found (.inheritance i)) :
    EdgesFrom T items :=
  fun i hi => absurd rfl (h _ hi i)

theorem of_declaredBy (h : ∀ item ∈ items, ∃ t, item.DeclaredBy t) : EdgesFrom T items := by
  refine of_forall fun item hitem i => ?_
  obtain ⟨t, src, scope, leaf, kind, signature, docstring, marks, rfl⟩ := h item hitem
  exact fun heq => by cases heq

theorem declare {src : String} {t : Tree} {scope : Scope} {leaf : String} {kind : SymbolKind}
    {signature : String} {docstring : Option String} {marks : List Mark} (h : EdgesFrom T items) :
    EdgesFrom T (Item.declare src t scope leaf kind signature docstring marks :: items) := by
  have hsymbol : EdgesFrom T [Item.declare src t scope leaf kind signature docstring marks] := by
    refine of_declaredBy fun item hitem => ⟨t, ?_⟩
    rw [List.mem_singleton.mp hitem]
    exact Item.declaredBy_declare ..
  exact hsymbol.append h

theorem filterMap {α : Type} {as : List α} {item? : α → Option Item}
    (h : ∀ a item, item? a = some item → ∃ t, item.DeclaredBy t) :
    EdgesFrom T (as.filterMap item?) := by
  refine of_declaredBy fun item hitem => ?_
  obtain ⟨a, _, hitem⟩ := List.mem_filterMap.mp hitem
  exact h a item hitem

theorem filterMap_map {α β : Type} {as : List α} {part? : α → Option β} {f : α → β → Item}
    (h : ∀ a b, ∃ t, (f a b).DeclaredBy t) :
    EdgesFrom T (as.filterMap fun a => (part? a).map (f a)) := by
  refine filterMap fun a item hitem => ?_
  obtain ⟨b, _, rfl⟩ := Option.map_eq_some_iff.mp hitem
  exact h a b

theorem map {α : Type} {as : List α} {f : α → Item} (h : ∀ a, ∃ t, (f a).DeclaredBy t) :
    EdgesFrom T (as.map f) := by
  refine of_declaredBy fun item hitem => ?_
  obtain ⟨a, _, rfl⟩ := List.mem_map.mp hitem
  exact h a

/-- Items that are no edges, one for each element of a list. -/
theorem map_of_ne {α : Type} {as : List α} {f : α → Item}
    (h : ∀ a i, f a ≠ .found (.inheritance i)) : EdgesFrom T (as.map f) := by
  refine of_forall fun item hitem i => ?_
  obtain ⟨a, _, rfl⟩ := List.mem_map.mp hitem
  exact h a i

theorem within (place : Option Cursor) (scope : Scope) : EdgesFrom T (Item.within place scope) :=
  map_of_ne fun p i heq => by cases heq

theorem enter (place : Cursor) (scope : Scope) : EdgesFrom T [.enter place scope] :=
  within (some place) scope

theorem imports {α : Type} (as : List α) (f : α → Import) :
    EdgesFrom T (as.map fun a => Item.imports (f a)) :=
  map_of_ne fun a i heq => by cases heq

theorem imported (i : Import) : EdgesFrom T [Item.imports i] :=
  imports [i] id

theorem packages {α : Type} (as : List α) (f : α → String) :
    EdgesFrom T (as.map fun a => Item.found (.package (f a))) :=
  map_of_ne fun a i heq => by cases heq

/-- The edge to a parent goes from the child, and type arguments are dropped. -/
theorem inherit {child : String} (h : T child) (parent : String) :
    EdgesFrom T (Item.inherit child parent) := by
  intro i hi
  simp only [Item.inherit] at hi
  split at hi
  · cases hi
  · next hne =>
    obtain rfl : i = ⟨child, Text.dropTypeArguments parent⟩ := by simpa using hi
    exact ⟨h, bareName_dropTypeArguments fun heq => hne (by simp [heq])⟩

theorem inherits {α : Type} {child : String} (h : T child) (as : List α) (parent : α → String) :
    EdgesFrom T (as.flatMap fun a => Item.inherit child (parent a)) :=
  flatMap fun a _ => inherit h (parent a)

end EdgesFrom

theorem Silent.enter_not_mem {items : List Item} (h : Silent items) (place : Cursor)
    (scope : Scope) : .enter place scope ∉ items := by
  intro hmem
  cases h _ hmem

theorem Item.eq_of_enter_mem_within {body : Option Cursor} {place : Cursor} {scope inner : Scope}
    (h : .enter place inner ∈ within body scope) : inner = scope := by
  obtain ⟨p, _, hp⟩ := List.mem_map.mp h
  cases hp
  rfl

/-! ## Edges from declared types -/

/-- The list declares a symbol with this full name, of a kind that is accepted. -/
def Declares (accepts : SymbolKind → Prop) (items : List Item) (name : String) : Prop :=
  ∃ d : Declared, .found (.symbol d) ∈ items ∧ d.symbol.name = name ∧ accepts d.symbol.kind

theorem Declares.mono {accepts : SymbolKind → Prop} {xs ys : List Item} {name : String}
    (h : Declares accepts xs name) (hsub : xs ⊆ ys) : Declares accepts ys name := by
  obtain ⟨d, hd, hname, hkind⟩ := h
  exact ⟨d, hsub hd, hname, hkind⟩

theorem declares_declare {accepts : SymbolKind → Prop} {kind : SymbolKind} (hkind : accepts kind)
    (src : String) (span : Tree) (scope : Scope) (leaf signature : String)
    (docstring : Option String) (marks : List Mark) (items : List Item) :
    Declares accepts (Item.declare src span scope leaf kind signature docstring marks :: items)
      (scope.qualify leaf) :=
  ⟨_, List.mem_cons_self, rfl, hkind⟩

/-- Each edge in the list goes from a type that the list itself declares. -/
def Grounded (accepts : SymbolKind → Prop) (items : List Item) : Prop :=
  EdgesFrom (Declares accepts items) items

namespace Grounded

variable {accepts : SymbolKind → Prop} {items : List Item}

theorem of_edgeless (h : EdgesFrom (fun _ => False) items) : Grounded accepts items :=
  h.mono fun _ hname => hname.elim

/-- A declaration, followed by edges from what it declares. -/
theorem declare {src : String} {span : Tree} {scope : Scope} {leaf : String} {kind : SymbolKind}
    {signature : String} {docstring : Option String} {marks : List Mark} (hkind : accepts kind)
    (h : EdgesFrom (Eq (scope.qualify leaf)) items) :
    Grounded accepts
      (Item.declare src span scope leaf kind signature docstring marks :: items) := by
  refine h.declare.mono fun name hname => ?_
  rw [← hname]
  exact declares_declare hkind ..

theorem flatMap {α : Type} {f : α → List Item} {as : List α}
    (h : ∀ a ∈ as, Grounded accepts (f a)) : Grounded accepts (as.flatMap f) := by
  refine EdgesFrom.flatMap fun a ha => (h a ha).mono fun name hname => ?_
  exact hname.mono fun item hitem => List.mem_flatMap.mpr ⟨a, ha, hitem⟩

end Grounded

/-- The full name of the declaration whose scope this is. -/
def Scope.name (scope : Scope) : String := ".".intercalate scope.path

/-- Each edge in the list goes from a type that the list declares, or from the declaration around
the place if its scope is trusted. Only the scope of such a type comes to be trusted. -/
structure RootedAt (accepts : SymbolKind → Prop) (trusts : Scope → Prop) (scope : Scope)
    (items : List Item) : Prop where
  edges : EdgesFrom (fun name => Declares accepts items name ∨ trusts scope ∧ name = scope.name)
    items
  enters : ∀ place inner, .enter place inner ∈ items → trusts inner →
    Declares accepts items inner.name ∨ trusts scope ∧ inner.name = scope.name

namespace RootedAt

variable {accepts : SymbolKind → Prop} {trusts : Scope → Prop} {scope : Scope} {items : List Item}

/-- A list from which no trusted scope is entered but the one at hand. -/
theorem of_grounded (h : Grounded accepts items)
    (hkeeps : ∀ place inner, .enter place inner ∈ items → trusts inner → inner = scope) :
    RootedAt accepts trusts scope items where
  edges := h.mono fun _ hname => .inl hname
  enters place inner hmem htrusts := by
    obtain rfl := hkeeps place inner hmem htrusts
    exact .inr ⟨htrusts, rfl⟩

theorem of_edgeless (h : EdgesFrom (fun _ => False) items)
    (hkeeps : ∀ place inner, .enter place inner ∈ items → trusts inner → inner = scope) :
    RootedAt accepts trusts scope items :=
  of_grounded (.of_edgeless h) hkeeps

theorem of_declaredBy (h : ∀ item ∈ items, ∃ t, item.DeclaredBy t) :
    RootedAt accepts trusts scope items := by
  refine of_edgeless (.of_declaredBy h) fun place inner hmem => ?_
  obtain ⟨t, _, _, _, _, _, _, _, hitem⟩ := h _ hmem
  cases hitem

theorem enter (place : Cursor) : RootedAt accepts trusts scope [.enter place scope] := by
  refine of_edgeless (.enter place scope) fun p inner hmem _ => ?_
  cases List.mem_singleton.mp hmem
  rfl

end RootedAt

namespace Rule

/-- What the rule lists for a place is rooted there. -/
def Rooted (accepts : SymbolKind → Prop) (trusts : Scope → Prop) (rule : Rule) : Prop :=
  ∀ scope c, RootedAt accepts trusts scope (rule scope c)

namespace Rooted

variable {accepts : SymbolKind → Prop} {trusts : Scope → Prop} {rule : Rule}

theorem of_grounded (h : ∀ scope c, Grounded accepts (rule scope c)) :
    rule.Rooted accepts fun _ => False :=
  fun scope c => .of_grounded (h scope c) fun _ _ _ htrusts => htrusts.elim

/-- **Runs.** Each edge that a rooted rule finds in a tree goes from the full name of a symbol that
the rule finds there, which is of an accepted kind. -/
theorem findings (h : rule.Rooted accepts trusts) (hfile : ¬ trusts {}) (root : Tree)
    {i : Inheritance} (hi : .inheritance i ∈ rule.findings root) :
    ∃ d : Declared, .symbol d ∈ rule.findings root ∧ d.symbol.name = i.child ∧
      accepts d.symbol.kind := by
  -- A trusted scope is that of a symbol already found, at each place that the rule comes to.
  let Known (name : String) : Prop := ∃ d : Declared,
    .symbol d ∈ rule.findings root ∧ d.symbol.name = name ∧ accepts d.symbol.kind
  have hknown : ∀ {scope c name}, (∀ other, .found other ∈ rule scope c → other ∈
      rule.findings root) → Declares accepts (rule scope c) name → Known name := by
    intro scope c name hall hdeclares
    obtain ⟨d, hd, hname⟩ := hdeclares
    exact ⟨d, hall _ hd, hname⟩
  refine explore_induction_among (rule.findings root)
    (fun scope _ => trusts scope → Known scope.name)
    (fun finding => ∀ i, finding = .inheritance i → Known i.child) ?_ ?_ root.height {}
    (Cursor.root root) (fun htrusts => absurd htrusts hfile) (fun _ hfinding => hfinding) _ hi i rfl
  · rintro scope place child _ hscope _ _ hall hitem i rfl
    rcases ((h scope child).edges i hitem).1 with hdeclares | ⟨htrusts, hname⟩
    · exact hknown hall hdeclares
    · exact hname ▸ hscope htrusts
  · intro scope place child inner innerScope hscope _ _ hall hitem hinner
    rcases (h scope child).enters inner innerScope hitem hinner with hdeclares | ⟨htrusts, hname⟩
    · exact hknown hall hdeclares
    · exact hname ▸ hscope htrusts

end Rooted

/-- Each edge that a rule finds in a tree leads to a bare name, if those it lists do. -/
theorem bareName_of_mem_findings {rule : Rule}
    (h : ∀ scope c, EdgesFrom (fun _ => True) (rule scope c)) (root : Tree) {i : Inheritance}
    (hi : .inheritance i ∈ rule.findings root) : BareName i.parent := by
  refine explore_induction (fun _ _ => True)
    (fun finding => ∀ i, finding = .inheritance i → BareName i.parent) ?_ (by simp) root.height {}
    (Cursor.root root) trivial _ hi i rfl
  rintro scope place child _ _ _ _ hitem i rfl
  exact (h scope child i hitem).2

end Rule

end CodeOutline
