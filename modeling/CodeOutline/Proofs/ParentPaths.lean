import CodeOutline.Proofs.Dialects

/-!
# Parents of symbols

The name of a symbol is a path, and all but its last part is the path of the declaration around it.

**Theorem (`symbols_follow_parents`).** In the languages whose declarations nest, if the tree is
well nested and no declaration gives a name with a dot in it, every symbol with a parent path comes
after a symbol of that name, whose lines include its lines.

Declarations nest in a language whose rule is anchored. `Housing.exists_earlier` gives the earlier
symbol by the part of the name that the declaration itself gives; cutting the name at its last dot
finds the same part.
-/

namespace CodeOutline

/-! ## The last dot -/

namespace Chars

theorem cutLast?_eq_none {c : Char} {cs : List Char} (h : c ∉ cs) : cutLast? [c] cs = none := by
  induction cs with
  | nil => rfl
  | cons d cs ih =>
    have hne : c ≠ d := fun heq => h (heq ▸ List.mem_cons_self)
    rw [cutLast?, ih fun hmem => h (List.mem_cons_of_mem _ hmem)]
    simp [after?, hne]

theorem cutLast?_append {c : Char} (before : List Char) {after : List Char} (h : c ∉ after) :
    cutLast? [c] (before ++ c :: after) = some (before, after) := by
  induction before with
  | nil =>
    rw [List.nil_append, cutLast?, cutLast?_eq_none h]
    simp [after?]
  | cons d before ih => rw [List.cons_append, cutLast?, ih]

end Chars

namespace Symbol

theorem parentPath?_eq_none {s : Symbol} (h : '.' ∉ s.name.toList) : s.parentPath? = none := by
  have hdot : ".".toList = ['.'] := rfl
  rw [parentPath?, Text.cutLast?, hdot, Chars.cutLast?_eq_none h]
  rfl

theorem parentPath?_eq_some {s : Symbol} {path leaf : String}
    (hname : s.name = path ++ "." ++ leaf) (h : '.' ∉ leaf.toList) :
    s.parentPath? = some path := by
  have hdot : ".".toList = ['.'] := rfl
  have hchars : s.name.toList = path.toList ++ '.' :: leaf.toList := by
    rw [hname, String.toList_append, String.toList_append, hdot, List.append_assoc]
    rfl
  rw [parentPath?, Text.cutLast?, hdot, hchars, Chars.cutLast?_append _ h]
  simp

end Symbol

/-- **Parents come first.** A symbol with a parent path comes after a symbol of that name, and the
lines of the parent include its lines. -/
theorem symbols_follow_parents {l : Language} (hl : l.nests = true) (src : String) {root : Tree}
    (hwell : root.WellNested)
    (hleaf : ∀ d ∈ l.dialect.declared src root, '.' ∉ d.leaf.toList) {i : Nat} {s : Symbol}
    (hs : (l.contents src root).symbols[i]? = some s) {path : String}
    (hpath : s.parentPath? = some path) :
    ∃ j p, j < i ∧ (l.contents src root).symbols[j]? = some p ∧ p.name = path ∧
      p.lineStart ≤ s.lineStart ∧ s.lineEnd ≤ p.lineEnd := by
  have hsymbols : (l.contents src root).symbols = (l.dialect.declared src root).map (·.symbol) :=
    rfl
  rw [hsymbols, List.getElem?_map] at hs
  obtain ⟨d, hd, rfl⟩ := Option.map_eq_some_iff.mp hs
  have hdot := hleaf d (List.mem_of_getElem? hd)
  have hhousing : Housing [] (l.dialect.declared src root) :=
    (Language.anchored_rule hl).housing_findings hwell
  rcases hhousing.exists_earlier hd with hname | ⟨p, hp, hname, hstart, hend⟩
  · rw [Symbol.parentPath?_eq_none (hname ▸ hdot)] at hpath
    simp at hpath
  · rcases hp with hp | ⟨j, hj, hp⟩
    · simp at hp
    · rw [Symbol.parentPath?_eq_some hname hdot] at hpath
      refine ⟨j, p.symbol, hj, ?_, Option.some.inj hpath, hstart, hend⟩
      rw [hsymbols, List.getElem?_map, hp]
      rfl

/-- A type `A` with a method `f` in it. -/
def methodInType : Tree :=
  .node ⟨"module", true, false, false, none, 0, 20⟩
    [.node ⟨"class_definition", true, false, false, none, 0, 20⟩
      [.node ⟨"identifier", true, false, false, some "name", 6, 7⟩ [],
        .node ⟨"block", true, false, false, some "body", 10, 20⟩
          [.node ⟨"function_definition", true, false, false, none, 10, 20⟩
            [.node ⟨"identifier", true, false, false, some "name", 14, 15⟩ [],
              .node ⟨"parameters", true, false, false, some "parameters", 15, 17⟩ [],
              .node ⟨"block", true, false, false, some "body", 19, 20⟩ []]]]]

/-- The method comes second, and its type comes before it. -/
theorem parent_methodInType :
    let symbols := (Language.python.contents "class A:\n def f(): 0" methodInType).symbols
    ∃ s, symbols[1]? = some s ∧ s.name = "A.f" ∧ ∃ j p, j < 1 ∧ symbols[j]? = some p ∧
      p.name = "A" ∧ p.lineStart ≤ s.lineStart ∧ s.lineEnd ≤ p.lineEnd := by
  intro symbols
  have hwell : methodInType.WellNested := by decide
  have hleaf : ∀ d ∈ Language.python.dialect.declared "class A:\n def f(): 0" methodInType,
      '.' ∉ d.leaf.toList := by decide +kernel
  have hs : symbols[1]? = some ⟨"A.f", .method, "def f()", none, 2, 2, []⟩ := by decide +kernel
  have hparent : Symbol.parentPath? ⟨"A.f", .method, "def f()", none, 2, 2, []⟩ = some "A" := by
    decide +kernel
  exact ⟨_, hs, rfl, symbols_follow_parents rfl "class A:\n def f(): 0" hwell hleaf hs hparent⟩

end CodeOutline
