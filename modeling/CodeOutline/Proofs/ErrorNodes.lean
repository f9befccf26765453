import CodeOutline.Proofs.Dialects

/-!
# What is below `ERROR` nodes is never looked at

Two trees agree outside errors when one comes from the other by giving `ERROR` nodes other children.

**Theorem (`contents_eq_of_agreeOutsideErrors`).** If trees agree outside errors, and `ERROR` nodes
play no role in their parents, the contents of a file are the same with one tree as with the other,
before and after references are resolved. In PHP this holds of everything but the marks.

The proof goes through pruned trees. `ERROR` nodes without a role are sealed, so trees that agree
outside errors are the same once they are pruned (`AgreeOutsideErrors.prune_eq`), and all dialects
are blind.
-/

namespace CodeOutline

namespace Tree

/-- The trees differ at most in what is below `ERROR` nodes. -/
inductive AgreeOutsideErrors : Tree → Tree → Prop
  | error {label : Label} (children others : List Tree) :
      label.kind = "ERROR" → AgreeOutsideErrors (node label children) (node label others)
  | node {label : Label} {children others : List Tree} :
      List.Forall₂ AgreeOutsideErrors children others →
      AgreeOutsideErrors (node label children) (node label others)

/-- No `ERROR` node of the tree plays a role in its parent. -/
def ErrorsBare (t : Tree) : Prop := ∀ s ∈ t.nodes, s.isError = true → s.label.field = none

instance (t : Tree) : Decidable t.ErrorsBare :=
  inferInstanceAs (Decidable (∀ s ∈ t.nodes, s.isError = true → s.label.field = none))

theorem ErrorsBare.of_mem_children {t c : Tree} (h : t.ErrorsBare) (hc : c ∈ t.children) :
    c.ErrorsBare :=
  fun s hs => h s (mem_nodes_trans hs (mem_nodes_of_mem_children hc))

theorem prune_of_isSealed {label : Label} (h : label.kind = "ERROR" ∧ label.field = none)
    (children : List Tree) : (node label children).prune = node label [] := by
  simp [prune, h]

theorem pruneAll_congr {ts ts' : List Tree} (h : List.Forall₂ AgreeOutsideErrors ts ts')
    (hprune : ∀ c ∈ ts, ∀ c', c.AgreeOutsideErrors c' → c'.prune = c.prune) :
    pruneAll ts' = pruneAll ts := by
  induction h with
  | nil => rfl
  | @cons c c' cs cs' hagree _ ih =>
    have hrest := ih fun d hd => hprune d (List.mem_cons_of_mem _ hd)
    rw [pruneAll, pruneAll, hprune c List.mem_cons_self c' hagree, hrest]

/-- Trees that agree outside errors are the same once they are pruned. -/
theorem AgreeOutsideErrors.prune_eq {t t' : Tree} (h : t.AgreeOutsideErrors t')
    (hbare : t.ErrorsBare) : t'.prune = t.prune := by
  induction t generalizing t' with
  | node label children ih =>
    cases h with
    | error children others hkind =>
      have hfield : label.field = none :=
        hbare _ (self_mem_nodes _) (by simp [isError, kind, hkind])
      rw [prune_of_isSealed ⟨hkind, hfield⟩, prune_of_isSealed ⟨hkind, hfield⟩]
    | node hchildren =>
      rw [prune, prune, pruneAll_congr hchildren fun c hc c' hagree =>
        ih c hc hagree (hbare.of_mem_children hc)]

theorem AgreeOutsideErrors.label_eq {t t' : Tree} (h : t.AgreeOutsideErrors t') :
    t'.label = t.label := by
  cases h <;> rfl

end Tree

open CodeOutline.Tree

/-- A blind dialect gives the same contents for trees that agree outside errors. -/
theorem Dialect.Blind.contents_congr {d : Dialect} (h : d.Blind) (src : String) {t t' : Tree}
    (hagree : t.AgreeOutsideErrors t') (hroot : t.isError = false) (hbare : t.ErrorsBare) :
    d.contents src t' = d.contents src t := by
  have hroot' : t'.isError = false := by
    rw [isError, kind, hagree.label_eq]
    exact hroot
  calc d.contents src t' = d.contents src t'.prune :=
        (h.contents_prune src (isSealed_of_isError hroot')).symm
    _ = d.contents src t.prune := by rw [hagree.prune_eq hbare]
    _ = d.contents src t := h.contents_prune src (isSealed_of_isError hroot)

/-- **`ERROR` nodes are opaque.** Giving `ERROR` nodes other children, or none, changes nothing in
the contents of a file, whether references are resolved or not; in PHP it may change marks. -/
theorem contents_eq_of_agreeOutsideErrors (l : Language) (src : String) {t t' : Tree}
    (hagree : t.AgreeOutsideErrors t') (hroot : t.isError = false) (hbare : t.ErrorsBare) :
    (l ≠ .php → l.dialect.contents src t' = l.dialect.contents src t ∧
      l.contents src t' = l.contents src t) ∧
    (l.dialect.contents src t').withoutMarks = (l.dialect.contents src t).withoutMarks ∧
    (l.contents src t').withoutMarks = (l.contents src t).withoutMarks := by
  have hsame : l ≠ .php → l.dialect.contents src t' = l.dialect.contents src t :=
    fun h => (Language.blind_dialect h).contents_congr src hagree hroot hbare
  have hbut : (l.dialect.contents src t').withoutMarks =
      (l.dialect.contents src t).withoutMarks := by
    by_cases hl : l = .php
    · subst hl
      have hphp := Php.blind_dialect.contents_congr src hagree hroot hbare
      rwa [Dialect.contents_withoutMarks, Dialect.contents_withoutMarks] at hphp
    · rw [hsame hl]
  refine ⟨fun h => ⟨hsame h, ?_⟩, hbut, ?_⟩
  · rw [Language.contents, Language.contents, hsame h]
  · rw [Language.contents, Language.contents, ← Contents.resolve_withoutMarks, hbut,
      Contents.resolve_withoutMarks]

/-- A call of `f`, and after it an `ERROR` node with the given children. -/
def callThenError (below : List Tree) : Tree :=
  .node ⟨"module", true, false, true, none, 0, 7⟩
    [.node ⟨"expression_statement", true, false, false, none, 0, 3⟩
      [.node ⟨"call", true, false, false, none, 0, 3⟩
        [.node ⟨"identifier", true, false, false, some "function", 0, 1⟩ [],
          .node ⟨"argument_list", true, false, false, some "arguments", 1, 3⟩ []]],
      .node ⟨"ERROR", true, false, true, none, 3, 7⟩ below]

/-- Another call inside an `ERROR` node does not show. -/
theorem contents_callThenError :
    let hidden := Tree.node ⟨"call", true, false, false, none, 4, 7⟩
      [.node ⟨"identifier", true, false, false, some "function", 4, 5⟩ []]
    (callThenError [hidden]).isError = false ∧ (callThenError [hidden]).ErrorsBare ∧
      (Language.python.contents "f()(g()" (callThenError [hidden])).calls.length = 1 ∧
      Language.python.contents "f()(g()" (callThenError []) =
        Language.python.contents "f()(g()" (callThenError [hidden]) := by
  intro hidden
  have hagree : (callThenError [hidden]).AgreeOutsideErrors (callThenError []) := by
    refine .node (.cons (.node (.cons (.node (.cons (.node .nil) ?_)) .nil)) ?_)
    · exact .cons (.node .nil) .nil
    · exact .cons (.error _ _ rfl) .nil
  have hbare : (callThenError [hidden]).ErrorsBare := by decide
  have hsame := contents_eq_of_agreeOutsideErrors .python "f()(g()" hagree rfl hbare
  exact ⟨rfl, hbare, by decide +kernel, (hsame.1 (by decide)).2⟩

end CodeOutline
