import CodeOutline.Proofs.Dialect.Go
import CodeOutline.Proofs.Layout
import CodeOutline.Proofs.Names.Bindings
import CodeOutline.Proofs.Reaching
import CodeOutline.Proofs.SourceOrder

/-!
# Names of packages

In `x.f()` the name `x` may stand for a package or for a value, and the call is one of a function or
of a method accordingly. The names of packages are collected from the imports of the file, and the
resolver has a table of what the imports bind. Both go by the same names: those that some import
binds.

Every import in Go is the import of a whole package, so the rule for names of members never
applies (`wholeImports_rule`). What remains is to compare the two ways from an import to a name.
-/

namespace CodeOutline

/-! ## Imports of whole modules -/

/-- The items import whole modules only. -/
def WholeImports (items : List Item) : Prop := ∀ i, .found (.imported i) ∈ items → i.names = []

namespace WholeImports

theorem nil : WholeImports [] := by
  intro i hi
  cases hi

theorem cons {item : Item} {items : List Item} (hitem : ∀ i, item ≠ .found (.imported i))
    (h : WholeImports items) : WholeImports (item :: items) := by
  intro i hi
  rcases List.mem_cons.mp hi with heq | hi
  · exact absurd heq.symm (hitem i)
  · exact h i hi

theorem flatMap {α : Type} {xs : List α} {f : α → List Item} (h : ∀ x ∈ xs, WholeImports (f x)) :
    WholeImports (xs.flatMap f) := by
  intro i hi
  obtain ⟨x, hx, hi⟩ := List.mem_flatMap.mp hi
  exact h x hx i hi

theorem map {α : Type} {xs : List α} {f : α → Item} (h : ∀ x i, f x ≠ .found (.imported i)) :
    WholeImports (xs.map f) := by
  intro i hi
  obtain ⟨x, -, heq⟩ := List.mem_map.mp hi
  exact absurd heq (h x i)

theorem inherit (child parent : String) : WholeImports (Item.inherit child parent) := by
  rw [Item.inherit]
  split
  · exact nil
  · exact nil.cons fun i heq => by cases heq

end WholeImports

theorem Item.declare_ne_imported {src : String} {span : Tree} {scope : Scope} {leaf : String}
    {kind : SymbolKind} {signature : String} {docstring : Option String} {marks : List Mark}
    (i : Import) :
    Item.declare src span scope leaf kind signature docstring marks ≠ .found (.imported i) := by
  intro heq
  cases heq

namespace Go

variable {src : String} {root : Tree}

theorem wholeImports_memberItems (owner : String) (type : Cursor) :
    WholeImports (memberItems src owner type) := by
  unfold memberItems structItems
  split
  · split
    · exact .nil
    · refine .flatMap fun c _ => ?_
      unfold fieldItems
      split
      · split
        · exact .nil
        · exact .inherit _ _
      · exact .map fun _ => Item.declare_ne_imported
  · refine .flatMap fun c _ => ?_
    simp only [elementItems]
    split
    iterate 2 · exact .map fun _ => Item.declare_ne_imported
    iterate 3
      · split
        · exact .nil
        · exact .inherit _ _
    · exact .nil
  · exact .nil

theorem wholeImports_importItems (t : Tree) : WholeImports (importItems src t) := by
  have hspec : ∀ spec i, importItem? src spec = some (.found (.imported i)) → i.names = [] := by
    intro spec i h
    obtain ⟨path, -, heq⟩ := Option.map_eq_some_iff.mp h
    obtain rfl := Finding.imported.inj (Item.found.inj heq)
    rfl
  refine .flatMap fun child _ i hi => ?_
  split at hi
  · exact hspec child i (Option.mem_toList.mp hi)
  · obtain ⟨spec, -, hi⟩ := List.mem_filterMap.mp hi
    exact hspec spec i hi
  · cases hi

theorem wholeImports_rule (scope : Scope) (c : Cursor) : WholeImports (rule src scope c) := by
  unfold rule
  split
  · exact .map fun _ i heq => by cases heq
  · exact wholeImports_importItems c.node
  iterate 2 · exact .map fun _ => Item.declare_ne_imported
  · refine .flatMap fun spec _ => ?_
    unfold typeItems
    split
    · exact .cons Item.declare_ne_imported (wholeImports_memberItems _ _)
    · exact .nil
  iterate 2 · exact .flatMap fun _ _ => .map fun _ => Item.declare_ne_imported
  · exact .nil

theorem names_of_mem_imports {i : Import} (h : i ∈ (Language.go.contents src root).imports) :
    i.names = [] := by
  obtain ⟨finding, hfinding, himport⟩ := List.mem_filterMap.mp h
  obtain ⟨scope, c, -, hitem⟩ := local_rule.mem_findings_iff.mp hfinding
  cases finding with
  | imported other =>
    obtain rfl := Option.some.inj himport
    exact wholeImports_rule scope c other hitem
  | _ => cases himport

/-! ## The names of packages -/

/-- The name of a package is what the import of the whole package binds. -/
theorem moduleNames_eq_filterMap (imports : List Import) :
    moduleNames imports = imports.filterMap fun i => (i.wholeBinding? .go).map (·.1) := by
  refine congrArg (imports.filterMap ·) (funext fun i => ?_)
  rw [Import.wholeBinding?]
  split
  iterate 2 · next h => simp [h]
  · next name hblank hdot h =>
    rw [h]
    have hname : ¬(name = "_" ∨ name = ".") := not_or.mpr ⟨hblank, hdot⟩
    simp [hname]
  · next h => simp [h]

theorem mem_moduleNames_iff {imports : List Import} (hwhole : ∀ i ∈ imports, i.names = [])
    {name : String} :
    name ∈ moduleNames imports ↔ ∃ i ∈ imports, ∃ target, i.Binds .go name target := by
  rw [moduleNames_eq_filterMap, List.mem_filterMap]
  refine exists_congr fun i => and_congr_right fun hi => ?_
  rw [Option.map_eq_some_iff]
  constructor
  · rintro ⟨⟨_, target⟩, hbinding, rfl⟩
    exact ⟨target, .whole (hwhole i hi) (Import.wholeBinding?_eq_some_iff.mp hbinding)⟩
  · rintro ⟨target, hbinds⟩
    cases hbinds with
    | whole _ h => exact ⟨(name, target), Import.wholeBinding?_eq_some_iff.mpr h, rfl⟩
    | member hsplit => simp [hwhole i hi] at hsplit

/-! ## Calls of selectors -/

/-- What the node calls is selected from the plain identifier `name`. -/
def SelectsFrom (src : String) (t : Tree) (name : String) : Prop :=
  ∃ target operand, t.field? "function" = some target ∧ target.kind = "selector_expression" ∧
    target.field? "operand" = some operand ∧ operand.kind = "identifier" ∧
    operand.text src = name

theorem isChain_of_operand {target operand : Tree} (hkind : target.kind = "selector_expression")
    (hoperand : target.field? "operand" = some operand) (hname : operand.kind = "identifier") :
    target.isChain isHead ["selector_expression"] "operand" = true := by
  have hhead : operand.isChain isHead ["selector_expression"] "operand" = true := by
    rw [Tree.isChain, if_pos (by simp [isHead, hname])]
  rw [Tree.isChain]
  split
  · rfl
  · rw [if_pos (by simp [hkind])]
    split
    · next rest hrest =>
      obtain rfl := Option.some.inj (hoperand.symm.trans hrest)
      exact hhead
    · next hnone => simp [hoperand] at hnone

theorem kind_site?_iff {modules : List String} {t : Tree} {name : String} {site : CallSite}
    (h : SelectsFrom src t name) (hsite : site? src modules t = some site) :
    site.kind = .function ↔ name ∈ modules := by
  obtain ⟨target, operand, htarget, hkind, hoperand, hname, rfl⟩ := h
  have hchain := isChain_of_operand hkind hoperand hname
  have hcall : t.kind = "call_expression" := by
    by_contra hne
    simp [site?, hne] at hsite
  have heq : site = selectorCall src modules target operand
      (CallSite.countArguments (t.field? "arguments")) := by
    simpa [site?, hcall, htarget, hkind, hchain, hoperand] using hsite.symm
  rw [heq, selectorCall]
  by_cases hmodule : operand.text src ∈ modules <;> simp [CallSite.direct, hname, hmodule]

/-- Calls are told apart by the names that the table of imports holds. -/
theorem package_names_agree (src : String) (root : Tree) :
    let contents := Language.go.contents src root
    (∀ name, name ∈ Language.go.dialect.moduleNames contents.imports ↔
      ((ImportTable.ofImports .go contents.imports).get? name).isSome) ∧
    List.Forall₂
      (fun t call => ∀ name, SelectsFrom src t name →
        (call.kind = .function ↔ ∃ i ∈ contents.imports, ∃ target, i.Binds .go name target))
      (root.exposed.filter fun t => (Language.go.callSite? src root t).isSome)
      contents.calls := by
  intro contents
  have hmem : ∀ name, name ∈ Language.go.dialect.moduleNames contents.imports ↔
      ∃ i ∈ contents.imports, ∃ target, i.Binds .go name target :=
    fun _ => mem_moduleNames_iff fun _ => names_of_mem_imports
  refine ⟨fun name => ?_, ?_⟩
  · rw [hmem name, ← Option.ne_none_iff_isSome, Ne, ImportTable.get?_ofImports_eq_none_iff]
    simp only [not_forall, not_not, exists_prop]
  · refine Language.go.forall₂_calls.imp ?_
    rintro t call ⟨-, site, hsite, -, hkind, -⟩ name hselects
    rw [hkind, ← hmem name]
    exact kind_site?_iff hselects hsite

/-! ## A package with a version, and a value -/

def packageSource : String :=
  "package p\nimport \"gopkg.in/yaml.v3\"\nfunc f() \x7b yaml.Load(); x.Y() \x7d"

/-- The call without arguments of what is selected from the name that ends at `dot`. -/
def selectedCall (start dot stop : Nat) : Tree :=
  .node ⟨"call_expression", true, false, false, none, start, stop⟩
    [.node ⟨"selector_expression", true, false, false, some "function", start, stop - 2⟩
      [.node ⟨"identifier", true, false, false, some "operand", start, dot⟩ [],
        .node ⟨".", false, false, false, none, dot, dot + 1⟩ [],
        .node ⟨"field_identifier", true, false, false, some "field", dot + 1, stop - 2⟩ []],
      .node ⟨"argument_list", true, false, false, some "arguments", stop - 2, stop⟩ []]

def packageFile : Tree :=
  .node ⟨"source_file", true, false, false, none, 0, 67⟩
    [.node ⟨"package_clause", true, false, false, none, 0, 9⟩
      [.node ⟨"package_identifier", true, false, false, none, 8, 9⟩ []],
      .node ⟨"import_declaration", true, false, false, none, 10, 35⟩
        [.node ⟨"import_spec", true, false, false, none, 17, 35⟩
          [.node ⟨"interpreted_string_literal", true, false, false, some "path", 17, 35⟩ []]],
      .node ⟨"function_declaration", true, false, false, none, 36, 67⟩
        [.node ⟨"identifier", true, false, false, some "name", 41, 42⟩ [],
          .node ⟨"parameter_list", true, false, false, some "parameters", 42, 44⟩ [],
          .node ⟨"block", true, false, false, some "body", 45, 67⟩
            [selectedCall 47 51 58, selectedCall 60 61 65]]]

theorem selectsFrom_selectedCall (src : String) (start dot stop : Nat) :
    SelectsFrom src (selectedCall start dot stop) (Source.slice src start dot) :=
  ⟨_, _, rfl, rfl, rfl, rfl, rfl⟩

/-- The import binds `yaml` and not `x`, so the first call is one of a function and the second is
not. -/
theorem kinds_packageFile :
    SelectsFrom packageSource (selectedCall 47 51 58) "yaml" ∧
    SelectsFrom packageSource (selectedCall 60 61 65) "x" ∧
    ∃ load other,
      Language.go.CallAt packageSource packageFile (selectedCall 47 51 58) load ∧
      Language.go.CallAt packageSource packageFile (selectedCall 60 61 65) other ∧
      load.kind = .function ∧ other.kind ≠ .function := by
  have hyaml : SelectsFrom packageSource (selectedCall 47 51 58) "yaml" :=
    selectsFrom_selectedCall packageSource 47 51 58
  have hx : SelectsFrom packageSource (selectedCall 60 61 65) "x" :=
    selectsFrom_selectedCall packageSource 60 61 65
  have hloadSite : Language.go.callSite? packageSource packageFile (selectedCall 47 51 58) =
      some (.direct "yaml.Load" .function 0) := by decide +kernel
  have hotherSite : Language.go.callSite? packageSource packageFile (selectedCall 60 61 65) =
      some (.direct "x.Y" .method 0) := by decide +kernel
  obtain ⟨load, hload, -⟩ := Language.go.callAt_of_callSite?
    (List.mem_of_getElem? (i := 9) rfl) hloadSite rfl (by decide)
  obtain ⟨other, hother, -⟩ := Language.go.callAt_of_callSite?
    (List.mem_of_getElem? (i := 15) rfl) hotherSite rfl (by decide)
  obtain ⟨-, hcalls⟩ := package_names_agree packageSource packageFile
  obtain ⟨-, hkind⟩ := List.forall₂_iff_zip.mp hcalls
  have himports : (Language.go.contents packageSource packageFile).imports =
      [.whole "gopkg.in/yaml.v3" none] := by decide +kernel
  refine ⟨hyaml, hx, load, other, hload, hother, (hkind hload "yaml" hyaml).mpr ?_,
    mt (hkind hother "x" hx).mp ?_⟩
  · rw [himports]
    refine ⟨_, List.mem_singleton_self _, "gopkg.in/yaml.v3", .whole rfl ?_⟩
    exact Import.wholeBinding?_eq_some_iff.mp (by decide +kernel)
  · have hget : (ImportTable.ofImports .go [.whole "gopkg.in/yaml.v3" none]).get? "x" = none := by
      decide +kernel
    rw [himports]
    rintro ⟨i, hi, target, hbinds⟩
    exact ImportTable.get?_ofImports_eq_none_iff.mp hget i hi target hbinds

end Go

end CodeOutline
