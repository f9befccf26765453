import CodeOutline.Proofs.Names.Resolution

/-!
# Resolving twice

A head is *settled* in a file when no import gives it another meaning and the language gives it none
that counts. A file's imports are *closed* when the heads of all targets, those of its imports and
those of the language, are settled.

**Theorem (`resolve_idempotent`).** If a file's imports are closed, resolving a second time changes
nothing. A file without imports is always of this kind.

A reference that was replaced is a target glued to the rest of the old reference. The glued text is
cut where the target alone is cut (`CutAt.append`), since no separator of any language can begin in
the target and end in the rest: only `::` could, and targets do not end with a colon.
-/

namespace CodeOutline

section Closed

variable (l : Language) (imports : List Import) (locals : List String)

/-- The head is not bound, or bound to itself, and is no built-in name unless the file declares
it. -/
structure Settled (head : String) : Prop where
  bound : ∀ target, LastBinding l imports head target → target = head
  builtin : ∀ target, l.IsBuiltin head target → head ∈ locals

/-- The heads of all targets are settled, and no import leads to a target with a colon at its
end. -/
structure ClosedImports : Prop where
  no_colon : ∀ name target, LastBinding l imports name target → ¬ [':'] <:+ target.toList
  imported : ∀ name target head rest, LastBinding l imports name target →
    l.Cuts target head rest → Settled l imports locals head
  builtin : ∀ name target head rest, l.IsBuiltin name target →
    l.Cuts target head rest → Settled l imports locals head

end Closed

variable {l : Language} {imports : List Import} {locals : List String}
  {reference head rest name target : String}

/-! ## Seams -/

theorem append_eq_pair {front back : List Char} {a b : Char} (h : front ++ back = [a, b])
    (hfront : front ≠ []) (hback : back ≠ []) : front = [a] ∧ back = [b] := by
  cases front with
  | nil => exact absurd rfl hfront
  | cons c front =>
    cases front with
    | nil => simpa using h
    | cons d front =>
      have hnil : front ++ back = [] := by simpa using (List.cons.inj (List.cons.inj h).2).2
      exact absurd (List.append_eq_nil_iff.mp hnil).2 hback

theorem append_ne_singleton {front back : List Char} {a : Char} (hfront : front ≠ [])
    (hback : back ≠ []) : front ++ back ≠ [a] := by
  intro h
  rcases List.append_eq_singleton_iff.mp h with ⟨hnil, -⟩ | ⟨-, hnil⟩
  · exact hfront hnil
  · exact hback hnil

/-- **No seams.** No separator begins in a path and ends in what follows it, if that is empty or
begins with a separator. Where two colons are a separator, the path must not end with one. -/
theorem Language.seamless {path rest : List Char}
    (hcolon : [':', ':'] ∈ l.separators → ¬ [':'] <:+ path)
    (hrest : rest ≠ [] → ∃ sep ∈ l.separators, sep <+: rest) :
    Seamless l.separators path rest := by
  intro front back hsep hfront hback hpath hpre
  have hdot : front ++ back ≠ ['.'] := append_ne_singleton hfront hback
  have hcolons : front ++ back ≠ [':', ':'] := fun h =>
    hcolon (h ▸ hsep) ((append_eq_pair h hfront hback).1 ▸ hpath)
  cases l with
  | rust =>
    have hsep : front ++ back ∈ [[':', ':'], ['.']] := hsep
    simp [hdot, hcolons] at hsep
  | php =>
    have hsep : front ++ back ∈ [['\\'], [':', ':'], ['-', '>']] := hsep
    have hslash : front ++ back ≠ ['\\'] := append_ne_singleton hfront hback
    have harrow : front ++ back = ['-', '>'] := by simpa [hslash, hcolons] using hsep
    -- no separator begins with the end of an arrow
    obtain ⟨more, rfl⟩ := (append_eq_pair harrow hfront hback).2 ▸ hpre
    obtain ⟨sep, hsep, hstart⟩ := hrest (List.cons_ne_nil _ _)
    have hsep : sep ∈ [['\\'], [':', ':'], ['-', '>']] := hsep
    simp only [List.mem_cons, List.not_mem_nil, or_false] at hsep
    rcases hsep with rfl | rfl | rfl <;> simp at hstart
  | _ =>
    have hsep : front ++ back ∈ [['.']] := hsep
    exact hdot (List.mem_singleton.mp hsep)

/-- **Gluing.** A target keeps its head when the rest of a reference is glued to it. -/
theorem Language.Cuts.glue {targetHead targetRest : String}
    (h : l.Cuts target targetHead targetRest)
    (hcolon : [':', ':'] ∈ l.separators → ¬ [':'] <:+ target.toList)
    (hcuts : l.Cuts reference head rest) :
    l.Cuts (target ++ rest) targetHead (targetRest ++ rest) := by
  have hglued := CutAt.append h hcuts.starts (seamless hcolon hcuts.starts)
  rwa [← String.toList_append, ← String.toList_append] at hglued

/-! ## Settled heads -/

theorem Settled.eq_of_standsFor (h : Settled l imports locals head)
    (htarget : StandsFor l imports locals head target) : target = head := by
  cases htarget with
  | imported hlast => exact h.bound target hlast
  | builtin _ hlocal htarget => exact absurd (h.builtin target htarget) hlocal

/-- A reference with a settled head resolves to itself. -/
theorem Settled.resolves (h : Settled l imports locals head) (hcuts : l.Cuts reference head rest) :
    Resolves l imports locals reference reference := by
  by_cases hself : head = "" ∨ l.IsSelf head
  · exact .self hcuts hself
  · obtain ⟨hne, hself⟩ := not_or.mp hself
    by_cases htarget : ∃ target, StandsFor l imports locals head target
    · obtain ⟨target, htarget⟩ := htarget
      have hresult := Resolves.replaced hcuts hne hself htarget
      have hreference : head ++ rest = reference := by
        rw [← String.toList_inj, String.toList_append, hcuts.text_eq]
      rwa [h.eq_of_standsFor htarget, hreference] at hresult
    · exact .kept hcuts (not_exists.mp htarget)

/-! ## Built-in targets -/

theorem Language.IsBuiltin.cases (h : l.IsBuiltin name target) :
    (l = .python ∧ name ∈ NameRules.pythonBuiltins ∧ target = "builtins" ++ "." ++ name) ∨
    (l = .java ∧ name ∈ NameRules.javaLang ∧ target = "java.lang" ++ "." ++ name) ∨
    (l = .rust ∧ (name, target) ∈ NameRules.rustPrelude) := by
  cases l with
  | python => exact Or.inl ⟨rfl, h⟩
  | java => exact Or.inr (Or.inl ⟨rfl, h⟩)
  | rust => exact Or.inr (Or.inr ⟨rfl, h⟩)
  | _ => exact h.elim

theorem rustPrelude_targets : ∀ e ∈ NameRules.rustPrelude,
    (Resolver.cutHead Language.rust.separators e.2.toList).1 = "std".toList ∧
      ¬ [':'] <:+ e.2.toList := by
  decide +kernel

theorem Language.IsBuiltin.not_colon (h : l.IsBuiltin name target)
    (hcolons : [':', ':'] ∈ l.separators) : ¬ [':'] <:+ target.toList := by
  rcases h.cases with ⟨rfl, -⟩ | ⟨rfl, -⟩ | ⟨-, hmem⟩
  · exact absurd hcolons (by decide)
  · exact absurd hcolons (by decide)
  · exact (rustPrelude_targets _ hmem).2

/-- The heads of built-in targets. -/
def builtinHeads : List String := ["builtins", "java", "std"]

/-- What is under a root in a language with dots has the head of the root. -/
theorem head_eq_of_root {root rootRest : String} (hl : l.separators = [['.']])
    (hroot : l.Cuts root head rootRest) {otherHead : String}
    (hcuts : l.Cuts (root ++ "." ++ name) otherHead rest) : otherHead = head := by
  have hdot : l.Cuts ("." ++ name) "" ("." ++ name) :=
    CutAt.of_starts ⟨['.'], by simp [hl], by simp⟩
  have hglued := hroot.glue (by simp [hl]) hdot
  rw [← String.append_assoc] at hglued
  exact String.toList_inj.mp (hcuts.unique hglued).1

theorem Language.IsBuiltin.head_mem (h : l.IsBuiltin name target)
    (hcuts : l.Cuts target head rest) : head ∈ builtinHeads := by
  have hpython : python.Cuts "builtins" "builtins" "" := cutHead_eq_iff.mp (by decide +kernel)
  have hjava : java.Cuts "java.lang" "java" ".lang" := cutHead_eq_iff.mp (by decide +kernel)
  rcases h.cases with ⟨rfl, -, rfl⟩ | ⟨rfl, -, rfl⟩ | ⟨rfl, hmem⟩
  · simp [builtinHeads, head_eq_of_root rfl hpython hcuts]
  · simp [builtinHeads, head_eq_of_root rfl hjava hcuts]
  · have hhead := congrArg Prod.fst hcuts.cutHead_eq
    rw [(rustPrelude_targets _ hmem).1] at hhead
    simp [builtinHeads, String.toList_inj.mp hhead]

theorem Language.not_isBuiltin_of_mem (h : head ∈ builtinHeads) : ¬ l.IsBuiltin head target := by
  have hnone : ∀ head ∈ builtinHeads, head ∉ NameRules.pythonBuiltins ∧
      head ∉ NameRules.javaLang ∧ head ∉ NameRules.rustPrelude.map (·.1) := by decide +kernel
  obtain ⟨hpython, hjava, hrust⟩ := hnone head h
  intro hbuiltin
  rcases hbuiltin.cases with ⟨-, hname, -⟩ | ⟨-, hname, -⟩ | ⟨-, hmem⟩
  · exact hpython hname
  · exact hjava hname
  · exact hrust (List.mem_map_of_mem hmem)

/-! ## Idempotence -/

theorem ClosedImports.settled (h : ClosedImports l imports locals)
    (htarget : StandsFor l imports locals name target) (hcuts : l.Cuts target head rest) :
    Settled l imports locals head := by
  cases htarget with
  | imported hlast => exact h.imported name target head rest hlast hcuts
  | builtin _ _ hbuiltin => exact h.builtin name target head rest hbuiltin hcuts

theorem ClosedImports.not_colon (h : ClosedImports l imports locals)
    (htarget : StandsFor l imports locals name target) (hcolons : [':', ':'] ∈ l.separators) :
    ¬ [':'] <:+ target.toList := by
  cases htarget with
  | imported hlast => exact h.no_colon name target hlast
  | builtin _ _ hbuiltin => exact hbuiltin.not_colon hcolons

/-- What a reference resolves to resolves to itself. -/
theorem Resolves.again {result : String} (hclosed : ClosedImports l imports locals)
    (h : Resolves l imports locals reference result) : Resolves l imports locals result result := by
  cases h with
  | self hcuts hself => exact .self hcuts hself
  | kept hcuts hnone => exact .kept hcuts hnone
  | @replaced _ _ target hcuts _ _ htarget =>
    obtain ⟨targetHead, targetRest, htargetCuts⟩ := l.exists_cuts target
    have hglued := htargetCuts.glue (hclosed.not_colon htarget) hcuts
    exact (hclosed.settled htarget htargetCuts).resolves hglued

/-- Without imports only the heads of built-in targets have to be settled. -/
theorem closedImports_nil (l : Language) (locals : List String) : ClosedImports l [] locals := by
  have hnone : ∀ name target, ¬ LastBinding l [] name target := by
    rintro name target ⟨before, i, after, h, -⟩
    simp at h
  refine ⟨fun name target h => absurd h (hnone name target),
    fun name target head rest h => absurd h (hnone name target),
    fun name target head rest h hcuts => ⟨fun other h => absurd h (hnone head other),
      fun other hother => ?_⟩⟩
  exact absurd hother (Language.not_isBuiltin_of_mem (h.head_mem hcuts))

/-- **Resolving twice.** Where imports are closed, what was resolved is not changed by resolving it
again. This is so in every file without imports. -/
theorem resolve_idempotent (l : Language) (locals : List String) :
    (∀ imports, ClosedImports l imports locals → ∀ reference,
      let r := (Resolver.ofImports l imports).withLocals locals
      r.resolve (r.resolve reference) = r.resolve reference) ∧
    ∀ reference,
      let r := (Resolver.ofImports l []).withLocals locals
      r.resolve (r.resolve reference) = r.resolve reference := by
  have hall : ∀ imports, ClosedImports l imports locals → ∀ reference,
      let r := (Resolver.ofImports l imports).withLocals locals
      r.resolve (r.resolve reference) = r.resolve reference := by
    intro imports hclosed reference r
    obtain ⟨result, h⟩ := exists_resolves l imports locals reference
    rw [h.resolve_eq]
    exact (h.again hclosed).resolve_eq
  exact ⟨hall, hall [] (closedImports_nil l locals)⟩

/-- A package that is bound to itself, and one of its members under another name. -/
def packageAndMember : List Import := [.whole "os.path" none, .member "os" "getcwd" (some "cwd")]

theorem mem_of_lastBinding_packageAndMember
    (h : LastBinding .python packageAndMember name target) :
    (name, target) ∈ [("cwd", "os.getcwd"), ("os", "os")] := by
  have hentries : (ImportTable.ofImports .python packageAndMember).entries =
      [("cwd", "os.getcwd"), ("os", "os")] := by decide +kernel
  have hget := ImportTable.get?_ofImports_eq_some_iff.mpr h
  rw [Dictionary.get?, hentries] at hget
  exact (find?_eq_some_iff_mem (by decide)).mp hget

theorem closedImports_packageAndMember : ClosedImports .python packageAndMember [] := by
  have hsettled : ∀ head ∈ "os" :: builtinHeads, Settled .python packageAndMember [] head := by
    intro head hhead
    have hsame : ∀ head ∈ "os" :: builtinHeads, ∀ e ∈ [("cwd", "os.getcwd"), ("os", "os")],
        e.1 = head → e.2 = head := by decide
    have hnot : ∀ head ∈ "os" :: builtinHeads, head ∉ NameRules.pythonBuiltins := by
      decide +kernel
    exact ⟨fun target h => hsame head hhead _ (mem_of_lastBinding_packageAndMember h) rfl,
      fun target h => absurd h.1 (hnot head hhead)⟩
  have hcut : ∀ e ∈ [("cwd", "os.getcwd"), ("os", "os")],
      (Resolver.cutHead Language.python.separators e.2.toList).1 = "os".toList := by decide +kernel
  have hcolon : ∀ e ∈ [("cwd", "os.getcwd"), ("os", "os")], ¬ [':'] <:+ e.2.toList := by decide
  refine ⟨fun name target h => hcolon _ (mem_of_lastBinding_packageAndMember h),
    fun name target head rest h hcuts => hsettled head ?_,
    fun name target head rest h hcuts => hsettled head (List.mem_cons_of_mem _ (h.head_mem hcuts))⟩
  have hhead := congrArg Prod.fst hcuts.cutHead_eq
  rw [hcut _ (mem_of_lastBinding_packageAndMember h)] at hhead
  simp [String.toList_inj.mp hhead]

/-- A member is resolved to its path, and the path to itself. -/
theorem idempotent_packageAndMember :
    let r := (Resolver.ofImports .python packageAndMember).withLocals []
    ClosedImports .python packageAndMember [] ∧ r.resolve "cwd.parent" = "os.getcwd.parent" ∧
      r.resolve (r.resolve "cwd.parent") = r.resolve "cwd.parent" :=
  ⟨closedImports_packageAndMember, by decide +kernel,
    (resolve_idempotent .python []).1 packageAndMember closedImports_packageAndMember "cwd.parent"⟩

end CodeOutline
