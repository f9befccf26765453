import CodeOutline.Proofs.Names.Bindings

/-!
# What resolving a reference gives

`Resolves l imports locals reference result` says what a reference in a file means: it is cut at its
first separator, and its head, unless it is empty or stands for the object at hand, is replaced by
what the last import that binds it, or else the language, says it stands for.

**Theorem (`resolve_eq_iff`).** The resolver gives the result that the rules allow, and the rules
allow no other.
-/

namespace CodeOutline

/-! ## The rules -/

namespace Language

/-- What may stand between the parts of a name. -/
def separators (l : Language) : List (List Char) :=
  (NameRules.ofLanguage l).separators.map String.toList

/-- The reference is cut at its first separator, which begins the rest. -/
def Cuts (l : Language) (reference head rest : String) : Prop :=
  CutAt l.separators reference.toList head.toList rest.toList

/-- The head stands for the object at hand: without the calls and then the question marks at its end
it is one of the words for it. -/
def IsSelf (l : Language) (head : String) : Prop :=
  ∃ called word, StripsTo "()".toList head.toList called ∧ StripsTo "?".toList called word ∧
    String.ofList word ∈ (NameRules.ofLanguage l).selfWords

/-- The language gives `name` to every file, for `target`. -/
def IsBuiltin (l : Language) (name target : String) : Prop :=
  match (NameRules.ofLanguage l).builtins with
  | .none => False
  | .under root names =>
    name ∈ names ∧ target = root ++ (NameRules.ofLanguage l).memberJoin ++ name
  | .table entries => (name, target) ∈ entries

end Language

/-- What a head stands for. Imports come first, and names that the file declares hide those of the
language. -/
inductive StandsFor (l : Language) (imports : List Import) (locals : List String) (head : String) :
    String → Prop
  | imported {target : String} : LastBinding l imports head target →
      StandsFor l imports locals head target
  | builtin {target : String} : (∀ i ∈ imports, ∀ other, ¬ i.Binds l head other) →
      head ∉ locals → l.IsBuiltin head target → StandsFor l imports locals head target

/-- What a reference resolves to. -/
inductive Resolves (l : Language) (imports : List Import) (locals : List String)
    (reference : String) : String → Prop
  | self {head rest : String} : l.Cuts reference head rest → head = "" ∨ l.IsSelf head →
      Resolves l imports locals reference reference
  | replaced {head rest target : String} : l.Cuts reference head rest →
      head ≠ "" → ¬ l.IsSelf head → StandsFor l imports locals head target →
      Resolves l imports locals reference (target ++ rest)
  | kept {head rest : String} : l.Cuts reference head rest →
      (∀ target, ¬ StandsFor l imports locals head target) →
      Resolves l imports locals reference reference

/-! ## The resolver keeps the rules -/

theorem find?_eq_some_iff_mem {entries : List (String × String)} (h : (entries.map (·.1)).Nodup)
    {name target : String} :
    (entries.find? fun e => e.1 == name).map (·.2) = some target ↔ (name, target) ∈ entries := by
  induction entries with
  | nil => simp
  | cons e entries ih =>
    obtain ⟨hfirst, hrest⟩ := List.nodup_cons.mp h
    by_cases hname : e.1 = name
    · subst hname
      have hnot : (e.1, target) ∉ entries := fun hmem => hfirst (List.mem_map.mpr ⟨_, hmem, rfl⟩)
      rw [List.find?_cons_of_pos (by simp), List.mem_cons, or_iff_left hnot]
      simp [Prod.ext_iff, eq_comm]
    · have hne : (name, target) ≠ e := fun heq => hname (heq ▸ rfl)
      rw [List.find?_cons_of_neg (by simpa using hname), ih hrest, List.mem_cons,
        or_iff_right hne]

namespace Resolver

variable {r : Resolver} {reference head rest target : String}

theorem resolve_of_isSelf (hsplit : r.split reference = (head, rest))
    (h : head = "" ∨ r.isSelf head = true) : r.resolve reference = reference := by
  rw [resolve, hsplit]
  simp [h]

theorem resolve_of_target? (hsplit : r.split reference = (head, rest)) (hne : head ≠ "")
    (hself : ¬ r.isSelf head = true) (htarget : r.target? head = some target) :
    r.resolve reference = target ++ rest := by
  rw [resolve, hsplit]
  simp [hne, hself, htarget]

theorem resolve_of_target?_eq_none (hsplit : r.split reference = (head, rest))
    (htarget : r.target? head = none) : r.resolve reference = reference := by
  rw [resolve, hsplit]
  simp [htarget]

end Resolver

section Rules

variable {l : Language} {imports : List Import} {locals : List String}
  {reference head rest target : String}

theorem Language.builtin?_eq_some_iff :
    (NameRules.ofLanguage l).builtin? head = some target ↔ l.IsBuiltin head target := by
  have hunder : ∀ (root join : String) (names : List String),
      (if names.contains head then some (root ++ join ++ head) else none) = some target ↔
        head ∈ names ∧ target = root ++ join ++ head := by
    intro root join names
    simp [eq_comm]
  cases l with
  | python => exact hunder ..
  | java => exact hunder ..
  | rust => exact find?_eq_some_iff_mem (by decide +kernel)
  | _ => simp [NameRules.builtin?, IsBuiltin, NameRules.ofLanguage]

theorem Resolver.split_ofImports_iff :
    ((ofImports l imports).withLocals locals).split reference = (head, rest) ↔
      l.Cuts reference head rest :=
  split_eq_iff _

theorem Resolver.isSelf_ofImports_iff :
    ((ofImports l imports).withLocals locals).isSelf head = true ↔ l.IsSelf head :=
  isSelf_iff _ head

theorem Resolver.target?_ofImports_iff :
    ((ofImports l imports).withLocals locals).target? head = some target ↔
      StandsFor l imports locals head target := by
  have hlocals : ((ofImports l imports).withLocals locals).locals = locals := List.nil_append _
  have himports : ((ofImports l imports).withLocals locals).imports =
    ImportTable.ofImports l imports := rfl
  rw [target?, hlocals, himports]
  cases htable : (ImportTable.ofImports l imports).get? head with
  | some bound =>
    constructor
    · intro h
      rw [Option.some.inj h] at htable
      exact .imported (ImportTable.get?_ofImports_eq_some_iff.mp htable)
    · intro h
      cases h with
      | imported hlast => rw [← htable, ImportTable.get?_ofImports_eq_some_iff.mpr hlast]
      | builtin hnone =>
        rw [ImportTable.get?_ofImports_eq_none_iff.mpr hnone] at htable
        simp at htable
  | none =>
    have hnone := ImportTable.get?_ofImports_eq_none_iff.mp htable
    have hbuiltin : (if locals.contains head then none
        else (NameRules.ofLanguage l).builtin? head) = some target ↔
          head ∉ locals ∧ l.IsBuiltin head target := by
      rw [← Language.builtin?_eq_some_iff]
      simp
    refine hbuiltin.trans ⟨fun h => .builtin hnone h.1 h.2, fun h => ?_⟩
    cases h with
    | imported hlast =>
      rw [ImportTable.get?_ofImports_eq_some_iff.mpr hlast] at htable
      simp at htable
    | builtin _ hlocal htarget => exact ⟨hlocal, htarget⟩

theorem Resolver.target?_ofImports_eq_none_iff :
    ((ofImports l imports).withLocals locals).target? head = none ↔
      ∀ target, ¬ StandsFor l imports locals head target := by
  simp only [← target?_ofImports_iff, Option.eq_none_iff_forall_ne_some, ne_eq]

/-- The resolver gives what the rules allow. -/
theorem Resolves.resolve_eq {result : String} (h : Resolves l imports locals reference result) :
    ((Resolver.ofImports l imports).withLocals locals).resolve reference = result := by
  cases h with
  | self hcuts hself =>
    exact Resolver.resolve_of_isSelf (Resolver.split_ofImports_iff.mpr hcuts)
      (hself.imp_right Resolver.isSelf_ofImports_iff.mpr)
  | replaced hcuts hne hself htarget =>
    exact Resolver.resolve_of_target? (Resolver.split_ofImports_iff.mpr hcuts) hne
      (mt Resolver.isSelf_ofImports_iff.mp hself) (Resolver.target?_ofImports_iff.mpr htarget)
  | kept hcuts hnone =>
    exact Resolver.resolve_of_target?_eq_none (Resolver.split_ofImports_iff.mpr hcuts)
      (Resolver.target?_ofImports_eq_none_iff.mpr hnone)

theorem Language.exists_cuts (l : Language) (reference : String) :
    ∃ head rest, l.Cuts reference head rest :=
  ⟨_, _, (Resolver.split_eq_iff (Resolver.ofImports l [])).mp rfl⟩

/-- The rules allow a result for every reference. -/
theorem exists_resolves (l : Language) (imports : List Import) (locals : List String)
    (reference : String) : ∃ result, Resolves l imports locals reference result := by
  obtain ⟨head, rest, hcuts⟩ := l.exists_cuts reference
  by_cases hself : head = "" ∨ l.IsSelf head
  · exact ⟨reference, .self hcuts hself⟩
  · obtain ⟨hne, hself⟩ := not_or.mp hself
    by_cases htarget : ∃ target, StandsFor l imports locals head target
    · obtain ⟨target, htarget⟩ := htarget
      exact ⟨target ++ rest, .replaced hcuts hne hself htarget⟩
    · exact ⟨reference, .kept hcuts (not_exists.mp htarget)⟩

/-- **Resolution.** The resolver gives what the rules allow, and nothing else is allowed. -/
theorem resolve_eq_iff (l : Language) (imports : List Import) (locals : List String)
    (reference result : String) :
    ((Resolver.ofImports l imports).withLocals locals).resolve reference = result ↔
      Resolves l imports locals reference result := by
  refine ⟨?_, Resolves.resolve_eq⟩
  rintro rfl
  obtain ⟨result, h⟩ := exists_resolves l imports locals reference
  rwa [h.resolve_eq]

end Rules

end CodeOutline
