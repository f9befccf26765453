import CodeOutline.Proofs.Inheritance
import CodeOutline.Proofs.Layout
import CodeOutline.Proofs.Names.Idempotence
import CodeOutline.Proofs.Outcomes

/-!
# Type arguments in resolved parents

The parents of types are bare names when they are found. Then they are resolved, and what an import
stands for is put in place of their heads just as the import gives it.

**Theorem (`type_arguments_of_parents`).** A resolved parent holds an opening bracket just if it is
resolved through an import whose target holds one. So there are none where imports name no types
with arguments.

Neither what is kept of a reference nor a built-in target brings a bracket in, which leaves the
imports. In C# these may name a type with its arguments, and `typeArguments_aliasOfList` shows a
parent that keeps them.
-/

namespace CodeOutline

open Outliner

/-- The brackets that open a list of type arguments. -/
def openers : List Char := ['<', '[']

/-! ## Brackets in what names stand for -/

section Targets

variable {l : Language} {c : Char} {name target : String}

theorem Language.not_mem_memberJoin (l : Language) (hc : c ∈ openers) :
    c ∉ (NameRules.ofLanguage l).memberJoin.toList := by
  have hnone : ∀ c ∈ openers, ∀ join ∈ [".", "::", "\\"], c ∉ join.toList := by
    simp [openers]
  apply hnone c hc
  cases l <;> simp [NameRules.ofLanguage]

theorem Language.IsBuiltin.not_mem (h : l.IsBuiltin name target) (hc : c ∈ openers)
    (hname : c ∉ name.toList) : c ∉ target.toList := by
  have hroots : ∀ c ∈ openers, c ∉ "builtins.".toList ∧ c ∉ "java.lang.".toList := by
    simp [openers]
  have hrust : NameRules.rustPrelude.all
      (fun e => e.2.toList.all fun c => !openers.contains c) = true := by
    simp [NameRules.rustPrelude, openers]
  obtain ⟨hbuiltins, hlang⟩ := hroots c hc
  rcases h.cases with ⟨-, -, rfl⟩ | ⟨-, -, rfl⟩ | ⟨-, hmem⟩
  · rw [String.toList_append, List.mem_append]
    exact not_or.mpr ⟨hbuiltins, hname⟩
  · rw [String.toList_append, List.mem_append]
    exact not_or.mpr ⟨hlang, hname⟩
  · intro hin
    simpa [hc] using List.all_eq_true.mp (List.all_eq_true.mp hrust _ hmem) c hin

/-- The import does without the character, but for the local name it gives. -/
def Import.Lacks (i : Import) (c : Char) : Prop :=
  c ∉ i.path.toList ∧ ∀ name ∈ i.names, c ∉ name.toList

instance (i : Import) (c : Char) : Decidable (i.Lacks c) :=
  inferInstanceAs (Decidable (_ ∧ _))

variable {i : Import}

theorem Import.BindsWhole.not_mem (h : i.BindsWhole l name target) (hc : c ∉ i.path.toList) :
    c ∉ target.toList := by
  cases h with
  | root _ _ hcut _ =>
    intro hmem
    apply hc
    rw [hcut.text_eq]
    exact List.mem_append_left _ hmem
  | given | package | segment => exact hc

theorem Import.MemberPath.not_mem {member : String} (h : i.MemberPath l member target)
    (hopener : c ∈ openers) (hpath : c ∉ i.path.toList) (hmember : c ∉ member.toList) :
    c ∉ target.toList := by
  have hjoin := l.not_mem_memberJoin hopener
  cases h with
  | direct => simp [hpath, hmember]
  | joined => simp [hpath, hjoin, hmember]

theorem Import.Binds.not_mem (h : i.Binds l name target) (hopener : c ∈ openers)
    (hc : i.Lacks c) : c ∉ target.toList := by
  cases h with
  | whole _ hwhole => exact hwhole.not_mem hc.1
  | member hnames _ _ hpath => exact hpath.not_mem hopener hc.1 (hc.2 _ (by simp [hnames]))

end Targets

/-! ## Brackets in what references resolve to -/

/-- An import says what the head of the reference stands for. -/
def ResolvesThrough (l : Language) (imports : List Import) (reference target : String) : Prop :=
  ∃ head rest, l.Cuts reference head rest ∧ head ≠ "" ∧ ¬ l.IsSelf head ∧
    LastBinding l imports head target

section References

variable {l : Language} {imports : List Import} {locals : List String} {c : Char}
  {reference result target : String}

theorem Resolves.unique {other : String} (h : Resolves l imports locals reference result)
    (hother : Resolves l imports locals reference other) : result = other :=
  h.resolve_eq.symm.trans hother.resolve_eq

/-- What a reference without brackets resolves to has those of the import it is resolved through. -/
theorem Resolves.mem_iff (h : Resolves l imports locals reference result) (hopener : c ∈ openers)
    (hc : c ∉ reference.toList) :
    c ∈ result.toList ↔ ∃ target, ResolvesThrough l imports reference target ∧
      c ∈ target.toList := by
  constructor
  · intro hmem
    cases h with
    | self => exact absurd hmem hc
    | kept => exact absurd hmem hc
    | @replaced head rest target hcuts hne hself htarget =>
      rw [hcuts.text_eq, List.mem_append, not_or] at hc
      obtain ⟨hhead, hrest⟩ := hc
      have hin : c ∈ target.toList := by simpa [hrest] using hmem
      cases htarget with
      | imported hlast => exact ⟨target, ⟨head, rest, hcuts, hne, hself, hlast⟩, hin⟩
      | builtin _ _ hbuiltin => exact absurd hin (hbuiltin.not_mem hopener hhead)
  · rintro ⟨target, ⟨head, rest, hcuts, hne, hself, hlast⟩, hin⟩
    rw [h.unique (.replaced hcuts hne hself (.imported hlast))]
    simp [hin]

theorem ResolvesThrough.not_mem (h : ResolvesThrough l imports reference target)
    (hopener : c ∈ openers) (hc : ∀ i ∈ imports, i.Lacks c) : c ∉ target.toList := by
  obtain ⟨_, _, _, _, _, before, i, after, rfl, hbinds, _⟩ := h
  exact hbinds.not_mem hopener (hc i (by simp))

end References

/-! ## Brackets in parents -/

theorem BareName.not_mem_openers {name : String} (h : BareName name) {c : Char}
    (hc : c ∈ openers) : c ∉ name.toList := by
  rcases List.mem_pair.mp hc with rfl | rfl
  · exact h.no_angle
  · exact h.no_square

namespace Language

variable {src : String} {root : Tree}

theorem bareName_of_mem_inheritances (l : Language) {i : Inheritance}
    (hi : i ∈ (l.dialect.contents src root).inheritances) : BareName i.parent :=
  Rule.bareName_of_mem_findings edges_rule root (Dialect.mem_inheritances.mp hi)

theorem resolves_resolver (l : Language) (reference : String) :
    Resolves l (l.contents src root).imports (l.contents src root).outermost reference
      ((l.resolver src root).resolve reference) := by
  obtain ⟨result, h⟩ := exists_resolves l (l.contents src root).imports
    (l.contents src root).outermost reference
  have hresult : (l.resolver src root).resolve reference = result := h.resolve_eq
  rwa [hresult]

/-- The edges of a file are those found in it, with their parents resolved. -/
theorem inheritances_eq_map (l : Language) :
    (l.contents src root).inheritances = (l.dialect.contents src root).inheritances.map fun i =>
      { i with parent := (l.resolver src root).resolve i.parent } := rfl

/-- A resolved parent has the brackets of the import that it is resolved through. -/
theorem mem_resolve_parent_iff (l : Language) {i : Inheritance}
    (hi : i ∈ (l.dialect.contents src root).inheritances) {c : Char} (hc : c ∈ openers) :
    c ∈ ((l.resolver src root).resolve i.parent).toList ↔
      ∃ target, ResolvesThrough l (l.contents src root).imports i.parent target ∧
        c ∈ target.toList :=
  (l.resolves_resolver i.parent).mem_iff hc
    ((l.bareName_of_mem_inheritances hi).not_mem_openers hc)

end Language

/-- **Type arguments of parents.** The edges of a file are those found in it, with their parents,
which are bare names, resolved. A resolved parent holds an opening bracket just if it is resolved
through an import whose target does; none does if no import holds such a bracket. -/
theorem type_arguments_of_parents (o : Outliner) (path source id : String) {l : Language}
    {root : Tree} (hl : Language.ofName? id = some l)
    (hroot : o.grammar l (dropOrderMark source) = .ok root)
    (hok : (o.outlineSource path source id).error = none) :
    let contents := (o.outlineSource path source id).contents
    List.Forall₂
      (fun i j => j.child = i.child ∧ BareName i.parent ∧
        Resolves l contents.imports contents.outermost i.parent j.parent ∧
        ∀ c ∈ openers, (c ∈ j.parent.toList ↔
          ∃ target, ResolvesThrough l contents.imports i.parent target ∧ c ∈ target.toList))
      (l.dialect.contents (dropOrderMark source) root).inheritances contents.inheritances ∧
    ∀ c ∈ openers, (∀ i ∈ contents.imports, i.Lacks c) →
      ∀ j ∈ contents.inheritances, c ∉ j.parent.toList := by
  intro contents
  have hcontents : contents = l.contents (dropOrderMark source) root :=
    congrArg Outline.contents (outlineSource_of_error_eq_none hl hroot hok)
  rw [hcontents, l.inheritances_eq_map]
  constructor
  · rw [List.forall₂_map_right_iff, List.forall₂_same]
    intro i hi
    dsimp only
    exact ⟨rfl, l.bareName_of_mem_inheritances hi, l.resolves_resolver i.parent,
      fun c hc => l.mem_resolve_parent_iff hi hc⟩
  · intro c hc himports j hj hmem
    obtain ⟨i, hi, rfl⟩ := List.mem_map.mp hj
    dsimp only at hmem
    obtain ⟨target, hthrough, htarget⟩ := (l.mem_resolve_parent_iff hi hc).mp hmem
    exact hthrough.not_mem hc himports htarget

/-- A class `A` with one parent, below the import of a name for it that ends at an offset. -/
def aliasedParent (stop : Nat) : Tree :=
  .node ⟨"compilation_unit", true, false, false, none, 0, 39⟩
    [.node ⟨"using_directive", true, false, false, none, 0, stop⟩ [],
      .node ⟨"class_declaration", true, false, false, none, stop + 1, 38⟩
        [.node ⟨"identifier", true, false, false, some "name", stop + 7, stop + 8⟩ [],
          .node ⟨"base_list", true, false, false, none, stop + 9, 34⟩ [],
          .node ⟨"declaration_list", true, false, false, some "body", 35, 38⟩ []]]

/-- The type arguments of the parent are dropped, and the import has none. -/
theorem typeArguments_aliasWithout :
    let o : Outliner := { grammar := fun _ _ => .ok (aliasedParent 17) }
    let contents := (o.outlineSource "a.cs" "using L = N.List;\nclass A : L<int> \x7b \x7d\n"
      "csharp").contents
    contents.imports = [.whole "N.List" (some "L")] ∧
      contents.inheritances = [⟨"A", "N.List"⟩] ∧
      ∀ j ∈ contents.inheritances, '<' ∉ j.parent.toList := by
  intro o contents
  have himports : contents.imports = [.whole "N.List" (some "L")] := by decide +kernel
  have hall := (type_arguments_of_parents o "a.cs"
    "using L = N.List;\nclass A : L<int> \x7b \x7d\n" "csharp" rfl rfl (by decide +kernel)).2
    '<' (by decide)
  exact ⟨himports, by decide +kernel, hall (by rw [himports]; decide)⟩

/-- A parent keeps the type arguments that an import brings in. -/
theorem typeArguments_aliasOfList :
    ¬ ∀ (o : Outliner) (path source id : String), (o.outlineSource path source id).error = none →
      ∀ j ∈ (o.outlineSource path source id).contents.inheritances, '<' ∉ j.parent.toList := by
  intro hall
  let o : Outliner := { grammar := fun _ _ => .ok (aliasedParent 22) }
  let source := "using L = N.List<int>;\nclass A : L \x7b \x7d\n"
  have hedge : (⟨"A", "N.List<int>"⟩ : Inheritance) ∈
      (o.outlineSource "a.cs" source "csharp").contents.inheritances := by decide +kernel
  exact hall o "a.cs" source "csharp" (by decide +kernel) _ hedge (by decide)

end CodeOutline
