import CodeOutline.Names.Resolver
import CodeOutline.Proofs.ParentLists
import Mathlib.Data.List.Infix

/-!
# Lists of type arguments

The parents of types are recorded without their type arguments. A single count of open brackets
serves both kinds of brackets, and a bracket that closes none is kept as a part of the name.

**Theorem (`edges_ignore_type_arguments`).** A list of type arguments can be put into a text, or
taken out of it, at any place, and the text without its type arguments stays the same. So does the
edge to such a parent, with whatever imports and local names it is resolved. Nothing more is dropped
the second time.

What stands before the list may have left any number of brackets open. Whatever that number is, the
scan comes back to it behind the list, and it keeps nothing on the way (`outsideBrackets_list`).
-/

namespace CodeOutline

/-! ## Balanced brackets -/

/-- The square and angle brackets in the text open and close each other: none is closed that is not
open, and none is left open. -/
structure BracketBalanced (text : String) : Prop where
  covered : ∀ before, before <+: text.toList → 0 ≤ Chars.balance Chars.argumentWeight before
  closed : Chars.balance Chars.argumentWeight text.toList = 0

instance (text : String) : Decidable (BracketBalanced text) :=
  decidable_of_iff ((∀ before ∈ text.toList.inits, 0 ≤ Chars.balance Chars.argumentWeight before) ∧
      Chars.balance Chars.argumentWeight text.toList = 0)
    ⟨fun h => ⟨fun before hbefore => h.1 before ((List.mem_inits _ _).mpr hbefore), h.2⟩,
      fun h => ⟨fun before hbefore => h.covered before ((List.mem_inits _ _).mp hbefore), h.closed⟩⟩

namespace Chars

theorem covered_tail {depth : Int} {c : Char} {cs before : List Char}
    (h : ∀ before, before <+: c :: cs → 0 ≤ depth + balance argumentWeight before)
    (hbefore : before <+: cs) :
    0 ≤ depth + (argumentWeight c + balance argumentWeight before) :=
  h (c :: before) (List.cons_prefix_cons.mpr ⟨rfl, hbefore⟩)

/-- Where no prefix closes more brackets than are open, all of them can be counted. -/
theorem exists_openAfter? {depth : Nat} {cs : List Char}
    (h : ∀ before, before <+: cs → 0 ≤ depth + balance argumentWeight before) :
    ∃ after, openAfter? depth cs = some after := by
  fun_induction openAfter? depth cs with
  | case1 depth => exact ⟨depth, rfl⟩
  | case2 depth c cs hopener ih =>
    apply ih
    intro before hbefore
    have hle := covered_tail h hbefore
    rw [argumentWeight, if_pos hopener] at hle
    omega
  | case3 c cs hopener hcloser =>
    -- the first character closes a bracket that is not open
    have hle := covered_tail h List.nil_prefix
    rw [argumentWeight, if_neg hopener, if_pos hcloser, balance] at hle
    omega
  | case4 c cs hopener hcloser depth ih =>
    apply ih
    intro before hbefore
    have hle := covered_tail h hbefore
    rw [argumentWeight, if_neg hopener, if_pos hcloser] at hle
    omega
  | case5 depth c cs hopener hcloser ih =>
    apply ih
    intro before hbefore
    have hle := covered_tail h hbefore
    rw [argumentWeight, if_neg hopener, if_neg hcloser] at hle
    omega

/-- Balanced text leaves as many brackets open as there were before. -/
theorem openAfter?_of_balanced {text : String} (h : BracketBalanced text) (depth : Nat) :
    openAfter? depth text.toList = some depth := by
  have hcovered : ∀ before, before <+: text.toList → 0 ≤ depth + balance argumentWeight before := by
    intro before hbefore
    have hle := h.covered before hbefore
    omega
  obtain ⟨after, hafter⟩ := exists_openAfter? hcovered
  have hsame := balance_of_openAfter? hafter
  rw [h.closed] at hsame
  rw [hafter, Option.some.injEq]
  omega

/-- **A list of type arguments** is dropped, however many brackets are open around it. -/
theorem outsideBrackets_list {opener closer : Char} (hopener : opener = '<' ∨ opener = '[')
    (hcloser : closer = '>' ∨ closer = ']') {text : String} (h : BracketBalanced text)
    (depth : Nat) (rest : List Char) :
    outsideBrackets depth (opener :: text.toList ++ closer :: rest) =
      outsideBrackets depth rest := by
  have hnoOpener : ¬ (closer = '<' ∨ closer = '[') := by
    rcases hcloser with rfl | rfl <;> decide
  rw [List.cons_append, outsideBrackets, if_pos hopener,
    outsideBrackets_append (openAfter?_of_balanced h depth), outsideBrackets, if_neg hnoOpener,
    if_pos ⟨hcloser, Nat.succ_pos depth⟩, Nat.add_sub_cancel]

/-- Texts that are the same from every depth on are the same behind any text. -/
theorem outsideBrackets_append_congr {cs ds : List Char}
    (h : ∀ depth, outsideBrackets depth cs = outsideBrackets depth ds) (front : List Char)
    (depth : Nat) : outsideBrackets depth (front ++ cs) = outsideBrackets depth (front ++ ds) := by
  induction front generalizing depth with
  | nil => exact h depth
  | cons c front ih =>
    rw [List.cons_append, List.cons_append, outsideBrackets, outsideBrackets]
    simp only [ih]

end Chars

/-! ## Texts without type arguments -/

/-- The brackets around a list of type arguments. -/
def argumentBrackets : List (Char × Char) := [('<', '>'), ('[', ']')]

/-- The text with a list of type arguments in it. -/
def withArguments (brackets : Char × Char) (front arguments back : String) : String :=
  front ++ String.singleton brackets.1 ++ arguments ++ String.singleton brackets.2 ++ back

theorem dropTypeArguments_withArguments {brackets : Char × Char}
    (hbrackets : brackets ∈ argumentBrackets) {arguments : String} (h : BracketBalanced arguments)
    (front back : String) :
    Text.dropTypeArguments (withArguments brackets front arguments back) =
      Text.dropTypeArguments (front ++ back) := by
  have hopener : brackets.1 = '<' ∨ brackets.1 = '[' := by
    rcases List.mem_pair.mp hbrackets with rfl | rfl <;> decide
  have hcloser : brackets.2 = '>' ∨ brackets.2 = ']' := by
    rcases List.mem_pair.mp hbrackets with rfl | rfl <;> decide
  have hchars : (withArguments brackets front arguments back).toList = front.toList ++
      (brackets.1 :: arguments.toList ++ brackets.2 :: back.toList) := by
    simp [withArguments]
  rw [Text.dropTypeArguments, Text.dropTypeArguments, hchars, String.toList_append,
    Chars.outsideBrackets_append_congr fun depth =>
      Chars.outsideBrackets_list hopener hcloser h depth back.toList]

theorem dropTypeArguments_dropTypeArguments (s : String) :
    Text.dropTypeArguments (Text.dropTypeArguments s) = Text.dropTypeArguments s := by
  by_cases hempty : Text.dropTypeArguments s = ""
  · rw [hempty]
    rfl
  · exact (bareName_dropTypeArguments hempty).dropTypeArguments_eq

/-! ## Edges -/

/-- The edge that an item is, if it is one. -/
def Item.edge? : Item → Option Inheritance
  | .found finding => finding.inheritance?
  | .enter _ _ => none

/-- The edges that a parent of a type gives, with the parent resolved. -/
def resolvedEdges (r : Resolver) (child parent : String) : List Inheritance :=
  ((Item.inherit child parent).filterMap Item.edge?).map fun i =>
    { i with parent := r.resolve i.parent }

/-- There is one edge, to what the bare name of the parent resolves to, or none if there is no name
at one of its ends. -/
theorem resolvedEdges_eq (r : Resolver) (child parent : String) :
    resolvedEdges r child parent =
      if Text.dropTypeArguments parent = "" ∨ child = "" then []
      else [⟨child, r.resolve (Text.dropTypeArguments parent)⟩] := by
  by_cases hempty : Text.dropTypeArguments parent = "" ∨ child = ""
  · simp [resolvedEdges, Item.inherit, hempty]
  · simp [resolvedEdges, Item.inherit, hempty, Item.edge?, Finding.inheritance?]

/-- A file in which a type has the given parent, too. -/
def Contents.withParent (file : Contents) (child parent : String) : Contents :=
  { file with
    inheritances := file.inheritances ++ (Item.inherit child parent).filterMap Item.edge? }

theorem Contents.inheritances_resolve_withParent (l : Language) (file : Contents)
    (child parent : String) :
    ((file.withParent child parent).resolve l).inheritances =
      (file.resolve l).inheritances ++ resolvedEdges (Resolver.ofContents l file) child parent :=
  List.map_append

/-- **Type arguments do not matter.** With and without a list of type arguments, a text is the same
once these are dropped, and as a parent it gives the same edge, whatever the names in it resolve to.
Dropping them again changes nothing. -/
theorem edges_ignore_type_arguments :
    (∀ brackets ∈ argumentBrackets, ∀ front arguments back : String, BracketBalanced arguments →
      let parent := withArguments brackets front arguments back
      Text.dropTypeArguments parent = Text.dropTypeArguments (front ++ back) ∧
      (∀ (l : Language) (imports : List Import) (locals : List String) (child : String),
        let r := (Resolver.ofImports l imports).withLocals locals
        resolvedEdges r child parent = resolvedEdges r child (front ++ back)) ∧
      ∀ (l : Language) (file : Contents) (child : String),
        ((file.withParent child parent).resolve l).inheritances =
          ((file.withParent child (front ++ back)).resolve l).inheritances) ∧
    ∀ s, Text.dropTypeArguments (Text.dropTypeArguments s) = Text.dropTypeArguments s := by
  refine ⟨?_, dropTypeArguments_dropTypeArguments⟩
  intro brackets hbrackets front arguments back hbalanced parent
  have hsame := dropTypeArguments_withArguments hbrackets hbalanced front back
  have hedges : ∀ r child,
      resolvedEdges r child parent = resolvedEdges r child (front ++ back) := by
    intro r child
    rw [resolvedEdges_eq, resolvedEdges_eq, hsame]
  refine ⟨hsame, fun l imports locals child => hedges _ child, fun l file child => ?_⟩
  rw [Contents.inheritances_resolve_withParent, Contents.inheritances_resolve_withParent, hedges]

/-- Nested arguments in the middle of a name that an import brings in. -/
theorem edge_ignores_nestedArguments :
    let r := (Resolver.ofImports .typescript [.member "./m" "a" none]).withLocals ["B"]
    let parent := withArguments ('<', '>') "a.Outer" "Map<K, V[]>, T" ".Inner"
    parent = "a.Outer<Map<K, V[]>, T>.Inner" ∧ BracketBalanced "Map<K, V[]>, T" ∧
      resolvedEdges r "B" parent = [⟨"B", "./m.a.Outer.Inner"⟩] := by
  intro r parent
  have hbalanced : BracketBalanced "Map<K, V[]>, T" := by decide +kernel
  have hbare : resolvedEdges r "B" "a.Outer.Inner" = [⟨"B", "./m.a.Outer.Inner"⟩] := by
    decide +kernel
  have hsame := (edges_ignore_type_arguments.1 ('<', '>') (by decide) "a.Outer" _ ".Inner"
    hbalanced).2.1 .typescript [.member "./m" "a" none] ["B"] "B"
  exact ⟨rfl, hbalanced, hsame.trans hbare⟩

end CodeOutline
