import CodeOutline.Proofs.Dialect.TypeScript
import CodeOutline.Proofs.Reaching
import Mathlib.Data.List.DropRight

/-!
# Decorators of methods

In a class body the decorators of a method are siblings that stand before it. They are looked for
backwards from the method, up to the first sibling that is no decorator. So a comment hides the
decorators above it.

**Theorem (`method_marks_iff`).** Take what stands between a method and the member before it. The
method has the marks of the decorators at the end of this gap, with nothing between them, and of
those inside the method. These are all the decorators of the gap exactly if in the gap nothing but
decorators comes after a decorator.
-/

namespace CodeOutline

open CodeOutline.Tree

/-! ## The end of a list -/

/-- The elements with a property at the end of a list are all that have it, exactly if nothing else
comes after one of them. -/
theorem rtakeWhile_eq_filter_iff {α : Type} (p : α → Bool) (l : List α) :
    l.rtakeWhile p = l.filter p ↔ l.Pairwise fun a b => p a = true → p b = true := by
  induction l using List.reverseRecOn with
  | nil => simp
  | append_singleton l a ih =>
    by_cases ha : p a = true
    · rw [List.rtakeWhile_concat_pos p l a ha, List.filter_append, List.filter_cons_of_pos ha,
        List.filter_nil, List.append_left_inj, ih, List.pairwise_append]
      simp [ha]
    · rw [List.rtakeWhile_concat_neg p l a ha, List.filter_append, List.filter_cons_of_neg ha,
        List.filter_nil, List.append_nil, eq_comm, List.filter_eq_nil_iff, List.pairwise_append]
      constructor
      · intro hnone
        refine
          ⟨List.pairwise_of_forall_mem_list fun x hx y _ hpx => absurd hpx (hnone x hx), ?_, ?_⟩
        · exact List.pairwise_singleton _ a
        · intro x hx y _ hpx
          exact absurd hpx (hnone x hx)
      · rintro ⟨_, _, hafter⟩ x hx hpx
        exact ha (hafter x hx a (List.mem_singleton.mpr rfl) hpx)

theorem rtakeWhile_suffix_filter {α : Type} (p : α → Bool) (l : List α) :
    l.rtakeWhile p <:+ l.filter p := by
  have hall : (l.rtakeWhile p).filter p = l.rtakeWhile p :=
    List.filter_eq_self.mpr fun _ => List.mem_rtakeWhile_imp
  rw [← hall]
  exact (List.rtakeWhile_suffix p l).filter p

/-- Nothing can be left out at the front of a list unseen, if each element gives something. -/
theorem filterMap_append_eq_iff {α β : Type} {f : α → Option β} {xs ys zs : List α}
    (hsuffix : xs <:+ ys) (hsome : ∀ y ∈ ys, (f y).isSome = true) :
    (xs ++ zs).filterMap f = (ys ++ zs).filterMap f ↔ xs = ys := by
  obtain ⟨front, rfl⟩ := hsuffix
  constructor
  · intro h
    rw [List.filterMap_append, List.filterMap_append, List.append_left_inj, List.filterMap_append,
      List.self_eq_append_left, List.filterMap_eq_nil_iff] at h
    cases front with
    | nil => rfl
    | cons a front =>
      have ha := hsome a List.mem_cons_self
      rw [h a List.mem_cons_self] at ha
      cases ha
  · intro h
    rw [← h]

namespace TypeScript

variable {src : String} {root : Tree} {scope : Scope} {c body : Cursor} {name : String}

/-! ## Classes and their members -/

def classKinds : List String := ["class_declaration", "abstract_class_declaration"]

def methodKinds : List String :=
  ["method_definition", "method_signature", "abstract_method_signature"]

theorem rule_of_class (hscope : scope.container ≠ .type) (hkind : c.node.kind ∈ classKinds) :
    rule src scope c = classItems src scope c := by
  rw [rule, if_neg hscope, statementItems]
  rcases List.mem_pair.mp hkind with hkind | hkind <;> simp only [hkind]

theorem rule_of_method (hscope : scope.container = .type) (hkind : c.node.kind ∈ methodKinds) :
    rule src scope c = methodItems src scope c := by
  rw [rule, if_pos hscope, memberItems]
  simp only [methodKinds, List.mem_cons, List.not_mem_nil, or_false] at hkind
  rcases hkind with hkind | hkind | hkind <;> simp only [hkind]

/-- The rule comes to the members of a class that it comes to. -/
theorem reaches_member (hreach : (rule src).Reaches root scope c)
    (hscope : scope.container ≠ .type) (hkind : c.node.kind ∈ classKinds)
    (hname : c.node.fieldText? src "name" = some name) (hbody : c.field? "body" = some body)
    {d : Cursor} (hd : d ∈ body.children) (hclear : d.node.isError = false) :
    (rule src).Reaches root (scope.inside name .type) d := by
  refine .inside hreach ?_ hd hclear
  rw [rule_of_class hscope hkind, classItems, hname, hbody]
  simp [Item.within]

/-- Something in a class body that ends the search for decorators: neither a decorator nor a
comment, a mark such as `;`, or an `ERROR` node. -/
def isMember (t : Tree) : Bool := t.named && !isDecorator t && !Comments.isComment t && !t.isError

theorem isDecorator_of_isMember {t : Tree} (h : isMember t = true) : isDecorator t = false := by
  simp only [isMember, Bool.and_eq_true, Bool.not_eq_true'] at h
  exact h.1.1.2

/-- A method of a class, and what stands between it and the member before it. -/
structure MethodIn (src : String) (root : Tree) (scope : Scope) (c body : Cursor) (name : String)
    (earlier gap : List Tree) (method : Tree) (later : List Tree) : Prop where
  reached : (rule src).Reaches root scope c
  outside : scope.container ≠ .type
  isClass : c.node.kind ∈ classKinds
  named : c.node.fieldText? src "name" = some name
  hasBody : c.field? "body" = some body
  isBody : body.node.kind = "class_body"
  siblings : body.node.children = earlier ++ gap ++ method :: later
  afterMember : ∀ t ∈ earlier.getLast?, isMember t = true
  noMember : ∀ t ∈ gap, isMember t = false
  isMethod : method.kind ∈ methodKinds

namespace MethodIn

variable {earlier gap later : List Tree} {method : Tree}

theorem reaches (h : MethodIn src root scope c body name earlier gap method later) :
    (rule src).Reaches root (scope.inside name .type)
      (body.childAt (earlier ++ gap) method later) := by
  have hclear : method.isError = false := by
    have hkind := h.isMethod
    simp only [methodKinds, List.mem_cons, List.not_mem_nil, or_false] at hkind
    rcases hkind with hkind | hkind | hkind <;> simp [isError, hkind]
  exact reaches_member h.reached h.outside h.isClass h.named h.hasBody
    (Cursor.childAt_mem_children h.siblings) hclear

/-- Going backwards, decorators are met up to the end of the gap. -/
theorem decorators_eq (h : MethodIn src root scope c body name earlier gap method later) :
    decorators (body.childAt (earlier ++ gap) method later) =
      gap.rtakeWhile isDecorator ++ method.children.filter isDecorator := by
  have hexport : export? (body.childAt (earlier ++ gap) method later) = none := by
    simp [export?, Cursor.childAt, Cursor.parent?, h.isBody]
  have hstop : earlier.reverse.takeWhile isDecorator = [] := by
    cases hlast : earlier.reverse with
    | nil => rfl
    | cons t ts =>
      have ht : earlier.getLast? = some t := by rw [← List.head?_reverse, hlast, List.head?_cons]
      exact List.takeWhile_cons_of_neg (by simp [isDecorator_of_isMember (h.afterMember t ht)])
  have hbefore : (earlier ++ gap).reverse.takeWhile isDecorator =
      gap.reverse.takeWhile isDecorator := by
    rw [List.reverse_append, List.takeWhile_append, hstop, List.append_nil]
    split
    · next hall => exact ((List.takeWhile_prefix _).eq_of_length hall).symm
    · rfl
  rw [decorators, hexport, List.rtakeWhile]
  simp only [Cursor.before, Cursor.childAt, Option.toList_none, List.map_nil, List.nil_append,
    List.flatMap_cons, List.flatMap_nil, List.append_nil, hbefore]

/-- The symbol of the method, with its marks. -/
theorem exists_declared (h : MethodIn src root scope c body name earlier gap method later)
    {leaf : String} (hleaf : method.fieldText? src "name" = some leaf) :
    ∃ d ∈ dialect.declared src root, d.Spans src method ∧
      d.symbol.name = (scope.inside name .type).qualify leaf ∧
      d.symbol.marks = (gap.rtakeWhile isDecorator ++ method.children.filter isDecorator).filterMap
        (Mark.ofDecorator src "call_expression") := by
  let place := body.childAt (earlier ++ gap) method later
  have hrule : rule src (scope.inside name .type) place =
      methodItems src (scope.inside name .type) place := rule_of_method rfl h.isMethod
  have hplace : place.node.fieldText? src "name" = some leaf := hleaf
  have hlisted : ∃ d, .found (.symbol d) ∈ rule src (scope.inside name .type) place ∧
      d.Spans src method ∧ d.symbol.name = (scope.inside name .type).qualify leaf ∧
      d.symbol.marks = marks src place := by
    rw [hrule, methodItems, hplace]
    exact ⟨_, List.mem_cons_self, ⟨rfl, rfl, rfl, rfl⟩, rfl, rfl⟩
  obtain ⟨d, hd, hspans, hname, hmarks⟩ := hlisted
  rw [marks, h.decorators_eq] at hmarks
  have hfound := anchored_rule.isLocal.mem_findings_iff.mpr ⟨_, place, h.reaches, hd⟩
  exact ⟨d, Dialect.mem_declared.mpr hfound, hspans, hname, hmarks⟩

end MethodIn

/-- **Decorators.** The marks of a method come from the decorators right before it and from those
inside it. They come from all the decorators between the member before and the method exactly if
nothing else stands between a decorator and the method. -/
theorem method_marks_iff {earlier gap later : List Tree} {method : Tree} {leaf : String}
    (h : MethodIn src root scope c body name earlier gap method later)
    (hleaf : method.fieldText? src "name" = some leaf) :
    ∃ d ∈ dialect.declared src root, d.Spans src method ∧
      d.symbol.name = (scope.inside name .type).qualify leaf ∧
      d.symbol.marks = (gap.rtakeWhile isDecorator ++ method.children.filter isDecorator).filterMap
        (Mark.ofDecorator src "call_expression") ∧
      ((∀ t ∈ gap, isDecorator t = true → t.firstNamed?.isSome = true) →
        (d.symbol.marks = (gap.filter isDecorator ++ method.children.filter isDecorator).filterMap
            (Mark.ofDecorator src "call_expression") ↔
          gap.Pairwise fun a b => isDecorator a = true → isDecorator b = true)) := by
  obtain ⟨d, hd, hspans, hname, hmarks⟩ := h.exists_declared hleaf
  refine ⟨d, hd, hspans, hname, hmarks, fun hnamed => ?_⟩
  rw [hmarks, filterMap_append_eq_iff (rtakeWhile_suffix_filter isDecorator gap),
    rtakeWhile_eq_filter_iff]
  intro t ht
  obtain ⟨ht, hdecorator⟩ := List.mem_filter.mp ht
  rw [Mark.ofDecorator, Option.isSome_map]
  exact hnamed t ht hdecorator

/-! ## A comment between a decorator and the method -/

def decoratedSource : String := "class A \x7b @D /* c */ m() \x7b\x7d \x7d\n"

def methodM : Tree :=
  .node ⟨"method_definition", true, false, false, none, 21, 27⟩
    [.node ⟨"property_identifier", true, false, false, some "name", 21, 22⟩ [],
      .node ⟨"formal_parameters", true, false, false, some "parameters", 22, 24⟩ [],
      .node ⟨"statement_block", true, false, false, some "body", 25, 27⟩ []]

/-- The opening brace, a decorator and a comment. -/
def gapOfM : List Tree :=
  [.node ⟨"\x7b", false, false, false, none, 8, 9⟩ [],
    .node ⟨"decorator", true, false, false, some "decorator", 10, 12⟩
      [.node ⟨"@", false, false, false, none, 10, 11⟩ [],
        .node ⟨"identifier", true, false, false, none, 11, 12⟩ []],
    .node ⟨"comment", true, false, false, none, 13, 20⟩ []]

def decoratedBody : Tree :=
  .node ⟨"class_body", true, false, false, some "body", 8, 29⟩
    (gapOfM ++ [methodM, .node ⟨"\x7d", false, false, false, none, 28, 29⟩ []])

def decoratedClass : Tree :=
  .node ⟨"class_declaration", true, false, false, none, 0, 29⟩
    [.node ⟨"class", false, false, false, none, 0, 5⟩ [],
      .node ⟨"type_identifier", true, false, false, some "name", 6, 7⟩ [], decoratedBody]

def decoratedProgram : Tree := .node ⟨"program", true, false, false, none, 0, 30⟩ [decoratedClass]

def decoratedClassAt : Cursor := (Cursor.root decoratedProgram).childAt [] decoratedClass []

def decoratedBodyAt : Cursor :=
  decoratedClassAt.childAt [.node ⟨"class", false, false, false, none, 0, 5⟩ [],
    .node ⟨"type_identifier", true, false, false, some "name", 6, 7⟩ []] decoratedBody []

theorem methodIn_decoratedProgram :
    MethodIn decoratedSource decoratedProgram {} decoratedClassAt decoratedBodyAt "A" []
      gapOfM methodM [.node ⟨"\x7d", false, false, false, none, 28, 29⟩ []] where
  reached := .child (Cursor.childAt_mem_children rfl) rfl
  outside := by decide
  isClass := by decide
  named := by decide +kernel
  hasBody := rfl
  isBody := rfl
  siblings := rfl
  afterMember := by simp
  noMember := by decide +kernel
  isMethod := by decide

theorem fieldText?_methodM : methodM.fieldText? decoratedSource "name" = some "m" := by
  decide +kernel

/-- The method has no marks: there is a comment after its decorator. -/
theorem method_marks_decoratedProgram :
    methodM.fieldText? decoratedSource "name" = some "m" ∧
    ∃ d ∈ dialect.declared decoratedSource decoratedProgram, d.Spans decoratedSource methodM ∧
      d.symbol.name = "A.m" ∧ d.symbol.marks = [] ∧
      d.symbol.marks ≠ (gapOfM.filter isDecorator ++ methodM.children.filter isDecorator).filterMap
        (Mark.ofDecorator decoratedSource "call_expression") ∧
      ¬ gapOfM.Pairwise fun a b => isDecorator a = true → isDecorator b = true := by
  refine ⟨fieldText?_methodM, ?_⟩
  obtain ⟨d, hd, hspans, hname, hmarks, hiff⟩ :=
    method_marks_iff methodIn_decoratedProgram fieldText?_methodM
  have hafter : ¬ gapOfM.Pairwise fun a b => isDecorator a = true → isDecorator b = true := by
    decide
  have hlost := (hiff (by decide)).not.mpr hafter
  exact ⟨d, hd, hspans, hname.trans (by decide +kernel), hmarks.trans (by decide +kernel), hlost,
    hafter⟩

/-- Not every decorator between two members is a mark of the second. -/
theorem decorator_before_comment_lost :
    ¬ ∀ src root scope c body name earlier gap method later,
      MethodIn src root scope c body name earlier gap method later →
      ∀ d ∈ dialect.declared src root, d.Spans src method →
        d.symbol.marks = (gap.filter isDecorator ++ method.children.filter isDecorator).filterMap
          (Mark.ofDecorator src "call_expression") := by
  intro h
  obtain ⟨d, hd, hspans, _, hmarks⟩ := methodIn_decoratedProgram.exists_declared fieldText?_methodM
  have hall := h _ _ _ _ _ _ _ _ _ _ methodIn_decoratedProgram d hd hspans
  rw [hmarks] at hall
  revert hall
  decide +kernel

end TypeScript

end CodeOutline
