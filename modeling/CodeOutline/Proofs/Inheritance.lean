import CodeOutline.Proofs.Dialects

/-!
# Where edges start and where they lead

**Theorem (`inheritances_start_at_types`).** Each edge from a type to a parent leads to a bare name.
In all languages but Rust it starts at a symbol of the file, by its full name, and that symbol is a
type: of a kind that is a type, and in Go a struct, an interface or a type alias.

The rules are rooted, so this is what `Rooted.findings` says of a whole tree. In Rust an
implementation names its type wherever that is declared, so its edges may start outside the file.
-/

namespace CodeOutline

namespace Dialect

variable {d : Dialect} {src : String} {root : Tree}

theorem mem_inheritances {i : Inheritance} :
    i ∈ (d.contents src root).inheritances ↔ .inheritance i ∈ (d.rule src).findings root := by
  rw [contents, List.mem_filterMap]
  constructor
  · rintro ⟨finding, hfinding, hedge⟩
    cases finding with
    | inheritance other => exact Option.some.inj hedge ▸ hfinding
    | _ => simp [Finding.inheritance?] at hedge
  · exact fun h => ⟨_, h, rfl⟩

theorem symbol_mem_symbols {s : Declared} (h : .symbol s ∈ (d.rule src).findings root) :
    s.symbol ∈ (d.contents src root).symbols :=
  List.mem_map_of_mem (mem_declared.mpr h)

end Dialect

/-- **Edges start at types and lead to bare names.** -/
theorem inheritances_start_at_types (l : Language) (src : String) (root : Tree) {i : Inheritance}
    (hi : i ∈ (l.dialect.contents src root).inheritances) :
    (l ≠ .rust → ∃ s ∈ (l.dialect.contents src root).symbols,
      s.name = i.child ∧ l.IsTypeKind s.kind) ∧ BareName i.parent := by
  have hfound := Dialect.mem_inheritances.mp hi
  constructor
  · intro hl
    obtain ⟨d, hd, hname, hkind⟩ :=
      (Language.rooted_rule hl).findings Language.not_trusts_file root hfound
    exact ⟨d.symbol, Dialect.symbol_mem_symbols hd, hname, hkind⟩
  · exact Rule.bareName_of_mem_findings Language.edges_rule root hfound

/-- A class `A` that uses a trait `T` in its body. -/
def traitInClass : Tree :=
  .node ⟨"program", true, false, false, none, 0, 17⟩
    [.node ⟨"class_declaration", true, false, false, none, 0, 17⟩
      [.node ⟨"name", true, false, false, some "name", 6, 7⟩ [],
        .node ⟨"declaration_list", true, false, false, some "body", 8, 17⟩
          [.node ⟨"use_declaration", true, false, false, none, 9, 16⟩
            [.node ⟨"name", true, false, false, none, 13, 14⟩ []]]]]

/-- The edge to the trait is listed inside the class and starts at it. -/
theorem edge_traitInClass :
    let contents := Language.php.dialect.contents "class A \x7buse T ;\x7d" traitInClass
    ⟨"A", "T"⟩ ∈ contents.inheritances ∧
      (∃ s ∈ contents.symbols, s.name = "A" ∧ s.kind.isType = true) ∧ BareName "T" := by
  intro contents
  have hedge : ⟨"A", "T"⟩ ∈ contents.inheritances := by decide +kernel
  obtain ⟨hstart, hparent⟩ := inheritances_start_at_types .php _ traitInClass hedge
  exact ⟨hedge, hstart (by decide), hparent⟩

end CodeOutline
