import CodeOutline.Proofs.Dialects

/-!
# Heads of symbols

The head of a symbol is what its declaration begins with, often over several lines, or pieces from
different places of it: a type that several fields share and one of their names, a keyword and one
of several specifications. However it is laid out, the symbol has it on one line.

**Theorem (`signatures_on_one_line`).** The heads of all symbols of a file hold no blank but the
space, and no two spaces side by side. The names of the enum constants of a Java file are heads as
they are written, so they must not hold blanks themselves.
-/

namespace CodeOutline

/-- **Heads on one line.** The head of every symbol is one line, in which words are one space apart.
For Java, this takes names of enum constants without blanks. -/
theorem signatures_on_one_line (l : Language) (src : String) (root : Tree)
    (hplain : l = .java → ∀ t ∈ root.nodes, Java.PlainConstant src t) :
    ∀ s ∈ (l.contents src root).symbols, Text.OneLine s.signature := by
  intro s hs
  obtain ⟨d, hd, rfl⟩ := List.mem_map.mp hs
  apply Language.oneLine_rule.findings Language.local_rule
  · exact fun t ht hjava => hplain hjava t ht
  · exact Dialect.mem_declared.mp hd

/-- An enum with a constant and a method, with line feeds and tabs in the heads. -/
def spreadEnum : Tree :=
  .node ⟨"program", true, false, false, none, 0, 37⟩
    [.node ⟨"enum_declaration", true, false, false, none, 0, 36⟩
      [.node ⟨"enum", false, false, false, none, 0, 4⟩ [],
        .node ⟨"identifier", true, false, false, some "name", 5, 6⟩ [],
        .node ⟨"enum_body", true, false, false, some "body", 7, 36⟩
          [.node ⟨"enum_constant", true, false, false, none, 11, 12⟩
            [.node ⟨"identifier", true, false, false, some "name", 11, 12⟩ []],
          .node ⟨"enum_body_declarations", true, false, false, none, 12, 34⟩
            [.node ⟨"method_declaration", true, false, false, none, 16, 34⟩
              [.node ⟨"void_type", true, false, false, some "type", 16, 20⟩ [],
                .node ⟨"identifier", true, false, false, some "name", 22, 23⟩ [],
                .node ⟨"formal_parameters", true, false, false, some "parameters", 23, 31⟩ [],
                .node ⟨"block", true, false, false, some "body", 32, 34⟩ []]]]]]

theorem signatures_spreadEnum :
    let src := "enum E\n\x7b\n  A;\n  void\n\tf(int  a) \x7b\x7d\n\x7d\n"
    let symbols := (Language.java.contents src spreadEnum).symbols
    (∀ t ∈ spreadEnum.nodes, Java.PlainConstant src t) ∧
      symbols.map (·.signature) = ["enum E", "A", "void f(int a)"] ∧
      ∀ s ∈ symbols, Text.OneLine s.signature := by
  intro src symbols
  have hfixed : (∀ t ∈ spreadEnum.nodes, Java.PlainConstant src t) ∧
      symbols.map (·.signature) = ["enum E", "A", "void f(int a)"] := by decide +kernel
  refine ⟨hfixed.1, hfixed.2, ?_⟩
  exact signatures_on_one_line .java src spreadEnum fun _ => hfixed.1

end CodeOutline
