import CodeOutline.Proofs.Names.Segments

/-!
# What imports bind

The names that a file's imports bind, said without a table. `Import.BindsWhole` gives the rule of
each language for the import of a whole module, and `Import.Binds` adds the imports of members.
`LastBinding` picks the last import that binds a name.

**Theorem (`ImportTable.get?_ofImports_eq_some_iff`).** The table of a file gives a name the target
of its last binding, and gives nothing for a name without one.
-/

namespace CodeOutline

/-! ## The last entry for a key -/

/-- The last of the entries with the given key gives the value. -/
def LastEntry (entries : List (String × String)) (key value : String) : Prop :=
  ∃ before after, entries = before ++ (key, value) :: after ∧ ∀ e ∈ after, e.1 ≠ key

section LastEntry

variable {entries xs ys : List (String × String)} {key value : String}

theorem not_lastEntry_nil : ¬ LastEntry [] key value := by
  rintro ⟨before, after, h, -⟩
  simp at h

theorem lastEntry_singleton {e : String × String} : LastEntry [e] key value ↔ e = (key, value) := by
  constructor
  · rintro ⟨before, after, h, -⟩
    rcases List.append_eq_singleton_iff.mp h.symm with ⟨rfl, h⟩ | ⟨rfl, h⟩
    · exact (List.cons.inj h).1
    · simp at h
  · rintro rfl
    exact ⟨[], [], rfl, by simp⟩

/-- The last entry of two lists is that of the second, if there is one. -/
theorem lastEntry_append : LastEntry (xs ++ ys) key value ↔
    LastEntry ys key value ∨ LastEntry xs key value ∧ ∀ e ∈ ys, e.1 ≠ key := by
  constructor
  · rintro ⟨before, after, h, hafter⟩
    rcases List.append_eq_append_iff.mp h with ⟨mid, rfl, rfl⟩ | ⟨mid, rfl, hmid⟩
    · exact Or.inl ⟨mid, after, rfl, hafter⟩
    · cases mid with
      | nil => exact Or.inl ⟨[], after, by simpa using hmid.symm, hafter⟩
      | cons e mid =>
        obtain ⟨rfl, rfl⟩ := List.cons.inj hmid
        exact Or.inr ⟨⟨before, mid, rfl, fun e he => hafter e (List.mem_append_left _ he)⟩,
          fun e he => hafter e (List.mem_append_right _ he)⟩
  · rintro (⟨before, after, rfl, hafter⟩ | ⟨⟨before, after, rfl, hafter⟩, hys⟩)
    · exact ⟨xs ++ before, after, by simp, hafter⟩
    · refine ⟨before, after ++ ys, by simp, fun e he => ?_⟩
      exact (List.mem_append.mp he).elim (hafter e) (hys e)

theorem lastEntry_cons {e : String × String} : LastEntry (e :: entries) key value ↔
    LastEntry entries key value ∨ e = (key, value) ∧ ∀ e ∈ entries, e.1 ≠ key := by
  rw [← List.singleton_append, lastEntry_append, lastEntry_singleton]

/-- A key has a last entry if it has any. -/
theorem forall_not_lastEntry :
    (∀ value, ¬ LastEntry entries key value) ↔ ∀ e ∈ entries, e.1 ≠ key := by
  constructor
  · intro h
    induction entries with
    | nil => simp
    | cons e entries ih =>
      have hrest := ih fun v hv => h v (lastEntry_cons.mpr (Or.inl hv))
      refine List.forall_mem_cons.mpr ⟨?_, hrest⟩
      rintro rfl
      exact h e.2 (lastEntry_cons.mpr (Or.inr ⟨rfl, hrest⟩))
  · rintro h value ⟨before, after, rfl, -⟩
    exact h _ (List.mem_append_right _ List.mem_cons_self) rfl

theorem forall_mem_flatMap {α : Type} {items : List α} {f : α → List (String × String)} :
    (∀ e ∈ items.flatMap f, e.1 ≠ key) ↔ ∀ item ∈ items, ∀ v, ¬ LastEntry (f item) key v := by
  simp only [forall_not_lastEntry, List.mem_flatMap]
  exact ⟨fun h item hitem e he => h e ⟨item, hitem, he⟩,
    fun h e ⟨item, hitem, he⟩ => h item hitem e he⟩

/-- The last entry of many lists is that of the last list that has one. -/
theorem lastEntry_flatMap {α : Type} {items : List α} {f : α → List (String × String)} :
    LastEntry (items.flatMap f) key value ↔ ∃ before item after, items = before ++ item :: after ∧
      LastEntry (f item) key value ∧ ∀ later ∈ after, ∀ v, ¬ LastEntry (f later) key v := by
  induction items with
  | nil => simp [not_lastEntry_nil]
  | cons item items ih =>
    rw [List.flatMap_cons, lastEntry_append]
    refine (or_congr ih (and_congr_right fun _ => forall_mem_flatMap)).trans ?_
    constructor
    · rintro (⟨before, other, after, rfl, h, hafter⟩ | ⟨h, hafter⟩)
      · exact ⟨item :: before, other, after, rfl, h, hafter⟩
      · exact ⟨[], item, items, rfl, h, hafter⟩
    · rintro ⟨before, other, after, heq, h, hafter⟩
      cases before with
      | nil =>
        obtain ⟨rfl, rfl⟩ := List.cons.inj heq
        exact Or.inr ⟨h, hafter⟩
      | cons first before =>
        obtain ⟨-, rfl⟩ := List.cons.inj heq
        exact Or.inl ⟨before, other, after, rfl, h, hafter⟩

end LastEntry

namespace Dictionary

/-- **The last entry counts** of those that a dictionary is built from. -/
theorem get?_ofList_eq_some_iff {entries : List (String × String)} {key value : String} :
    (ofList entries).get? key = some value ↔ LastEntry entries key value := by
  induction entries using List.reverseRecOn with
  | nil => simp [ofList, not_lastEntry_nil]
  | append_singleton entries e ih =>
    rw [ofList, List.foldl_append, List.foldl_cons, List.foldl_nil, ← ofList, get?_insert,
      lastEntry_append, lastEntry_singleton, ← ih]
    by_cases hkey : e.1 = key
    · subst hkey
      simp [Prod.ext_iff]
    · simp [Prod.ext_iff, hkey]

theorem get?_ofList_eq_none_iff {entries : List (String × String)} {key : String} :
    (ofList entries).get? key = none ↔ ∀ e ∈ entries, e.1 ≠ key := by
  simp only [← forall_not_lastEntry, ← get?_ofList_eq_some_iff, Option.eq_none_iff_forall_ne_some,
    ne_eq]

end Dictionary

/-! ## Bindings -/

namespace Import

/-- The import of a whole module binds `name` to `target`. -/
inductive BindsWhole (l : Language) (i : Import) : (name target : String) → Prop
  /-- The local name that the import gives stands for the module, unless it is one of the two by
  which Go asks for none. -/
  | given {name : String} : i.asName = some name → ¬ (l = .go ∧ (name = "_" ∨ name = ".")) →
      BindsWhole l i name i.path
  /-- `import a.b` binds `a`, which stands for the package `a`. -/
  | root {head : String} {rest : List Char} : l = .python → i.asName = none →
      CutAt [['.']] i.path.toList head.toList rest → head ≠ "" → BindsWhole l i head head
  | package {name : String} : l = .go → i.asName = none →
      PackageName i.path.toList name.toList → BindsWhole l i name i.path
  | segment {name : String} : l = .java ∨ l = .rust ∨ l = .php → i.asName = none →
      TrailingSegment i.path.toList name.toList → name ≠ "" → BindsWhole l i name i.path

/-- The import gives its member the local name `name`. A star is no member. -/
def Names (i : Import) (name member : String) : Prop := member ≠ "*" ∧ i.asName.getD member = name

/-- The path to a member of the imported module. -/
inductive MemberPath (l : Language) (i : Import) (member : String) : String → Prop
  | direct : i.path = "" ∨ ['.'] <:+ i.path.toList → MemberPath l i member (i.path ++ member)
  | joined : i.path ≠ "" → ¬ ['.'] <:+ i.path.toList →
      MemberPath l i member (i.path ++ (NameRules.ofLanguage l).memberJoin ++ member)

/-- The import binds `name`, by its last member that does so, to `target`. -/
inductive Binds (l : Language) (i : Import) (name : String) : String → Prop
  | whole {target : String} : i.names = [] → i.BindsWhole l name target → Binds l i name target
  | member {before after : List String} {member target : String} :
      i.names = before ++ member :: after → i.Names name member →
      (∀ later ∈ after, ¬ i.Names name later) → i.MemberPath l member target →
      Binds l i name target

theorem wholeBinding?_eq_some_iff {l : Language} {i : Import} {name target : String} :
    i.wholeBinding? l = some (name, target) ↔ i.BindsWhole l name target := by
  constructor
  · intro h
    unfold wholeBinding? at h
    split at h
    · next given hgiven =>
      split at h
      · simp at h
      · next hgo =>
        obtain ⟨rfl, rfl⟩ := Prod.mk.inj (Option.some.inj h)
        exact .given hgiven (by simpa using hgo)
    · next hnone =>
      have hsegment : (if (trailingSegment i.path).isEmpty then none
          else some (trailingSegment i.path, i.path)) = some (name, target) →
          l = .java ∨ l = .rust ∨ l = .php → i.BindsWhole l name target := by
        intro h hl
        split at h
        · simp at h
        · next hne =>
          obtain ⟨rfl, rfl⟩ := Prod.mk.inj (Option.some.inj h)
          exact .segment hl hnone (trailingSegment_eq_iff.mp rfl) (by simpa using hne)
      cases l with
      | python =>
        simp only at h
        split at h
        · simp at h
        · next hne =>
          obtain ⟨rfl, rfl⟩ := Prod.mk.inj (Option.some.inj h)
          obtain ⟨rest, hcut⟩ := Text.firstPiece_eq_iff.mp (rfl : Text.firstPiece ['.'] i.path = _)
          exact .root rfl hnone hcut (by simpa using hne)
      | go =>
        obtain ⟨rfl, rfl⟩ := Prod.mk.inj (Option.some.inj h)
        exact .package rfl hnone (packageName_eq_iff.mp rfl)
      | java => exact hsegment h (Or.inl rfl)
      | rust => exact hsegment h (Or.inr (Or.inl rfl))
      | php => exact hsegment h (Or.inr (Or.inr rfl))
      | _ => simp at h
  · intro h
    cases h with
    | given hgiven hgo => simp [wholeBinding?, hgiven, hgo]
    | root hl hnone hcut hne =>
      subst hl
      have hhead := Text.firstPiece_eq_iff.mpr ⟨_, hcut⟩
      simp [wholeBinding?, hnone, hhead, hne]
    | package hl hnone hname =>
      subst hl
      simp [wholeBinding?, hnone, packageName_eq_iff.mpr hname]
    | segment hl hnone hname hne =>
      have hsegment := trailingSegment_eq_iff.mpr hname
      rcases hl with rfl | rfl | rfl <;> simp [wholeBinding?, hnone, hsegment, hne]

theorem memberTarget_eq_iff {l : Language} {i : Import} {member target : String} :
    i.memberTarget (NameRules.ofLanguage l) member = target ↔ i.MemberPath l member target := by
  have hdot : (i.path.isEmpty || Text.endsWith "." i.path) = true ↔
      i.path = "" ∨ ['.'] <:+ i.path.toList := by
    simp [Text.endsWith]
  rw [memberTarget]
  split
  · next h =>
    have hdirect := hdot.mp h
    constructor
    · rintro rfl
      exact .direct hdirect
    · intro hpath
      cases hpath with
      | direct _ => rfl
      | joined hne hend => exact absurd hdirect (not_or.mpr ⟨hne, hend⟩)
  · next h =>
    obtain ⟨hne, hend⟩ := not_or.mp (mt hdot.mpr h)
    constructor
    · rintro rfl
      exact .joined hne hend
    · intro hpath
      cases hpath with
      | direct hdirect => exact absurd hdirect (not_or.mpr ⟨hne, hend⟩)
      | joined _ _ => rfl

/-- What one member adds to the names that an import binds. -/
def memberBindings (l : Language) (i : Import) (member : String) : List (String × String) :=
  if member = "*" then []
  else [(i.asName.getD member, i.memberTarget (NameRules.ofLanguage l) member)]

theorem bindings_of_names_ne_nil {l : Language} {i : Import} (h : i.names ≠ []) :
    i.bindings l = i.names.flatMap (i.memberBindings l) := by
  have hflat : ∀ names : List String, ((names.filter (· != "*")).map fun name =>
      (i.asName.getD name, i.memberTarget (NameRules.ofLanguage l) name)) =
        names.flatMap (i.memberBindings l) := by
    intro names
    induction names with
    | nil => rfl
    | cons name names ih => by_cases hname : name = "*" <;> simp [memberBindings, hname, ih]
  rw [bindings, if_neg (by simpa using h), hflat]

theorem lastEntry_memberBindings_iff {l : Language} {i : Import} {member name target : String} :
    LastEntry (i.memberBindings l member) name target ↔
      i.Names name member ∧ i.MemberPath l member target := by
  rw [memberBindings, ← memberTarget_eq_iff, Names]
  split
  · next hstar => simp [hstar, not_lastEntry_nil]
  · next hstar => simp [lastEntry_singleton, hstar]

/-- An import has a last entry for a name in its list of bindings exactly if it binds the name. -/
theorem lastEntry_bindings_iff {l : Language} {i : Import} {name target : String} :
    LastEntry (i.bindings l) name target ↔ i.Binds l name target := by
  by_cases hnames : i.names = []
  · have hbindings : i.bindings l = (i.wholeBinding? l).toList := by simp [bindings, hnames]
    have hwhole : LastEntry (i.wholeBinding? l).toList name target ↔
        i.BindsWhole l name target := by
      rw [← wholeBinding?_eq_some_iff]
      cases i.wholeBinding? l with
      | none => simp [not_lastEntry_nil]
      | some e => simpa using lastEntry_singleton
    rw [hbindings, hwhole]
    constructor
    · exact fun h => .whole hnames h
    · intro h
      cases h with
      | whole _ h => exact h
      | member hsplit => simp [hnames] at hsplit
  · have hlater : ∀ later, (∀ v, ¬ LastEntry (i.memberBindings l later) name v) ↔
        ¬ i.Names name later := by
      intro later
      simp only [lastEntry_memberBindings_iff, not_and]
      exact ⟨fun h hn => h _ hn (memberTarget_eq_iff.mp rfl), fun h v hn => absurd hn h⟩
    rw [bindings_of_names_ne_nil hnames, lastEntry_flatMap]
    constructor
    · rintro ⟨before, member, after, hsplit, hlast, hafter⟩
      obtain ⟨hname, hpath⟩ := lastEntry_memberBindings_iff.mp hlast
      exact .member hsplit hname (fun later h => (hlater later).mp (hafter later h)) hpath
    · intro h
      cases h with
      | whole hnil => exact absurd hnil hnames
      | member hsplit hname hafter hpath =>
        exact ⟨_, _, _, hsplit, lastEntry_memberBindings_iff.mpr ⟨hname, hpath⟩,
          fun later h => (hlater later).mpr (hafter later h)⟩

end Import

/-- The last import that binds `name` binds it to `target`. -/
def LastBinding (l : Language) (imports : List Import) (name target : String) : Prop :=
  ∃ before i after, imports = before ++ i :: after ∧ i.Binds l name target ∧
    ∀ later ∈ after, ∀ other, ¬ later.Binds l name other

namespace ImportTable

/-- **The table holds the last bindings.** -/
theorem get?_ofImports_eq_some_iff {l : Language} {imports : List Import} {name target : String} :
    (ofImports l imports).get? name = some target ↔ LastBinding l imports name target := by
  rw [ofImports, Dictionary.get?_ofList_eq_some_iff, lastEntry_flatMap]
  simp only [Import.lastEntry_bindings_iff]
  rfl

theorem get?_ofImports_eq_none_iff {l : Language} {imports : List Import} {name : String} :
    (ofImports l imports).get? name = none ↔ ∀ i ∈ imports, ∀ target, ¬ i.Binds l name target := by
  rw [ofImports, Dictionary.get?_ofList_eq_none_iff, forall_mem_flatMap]
  simp only [Import.lastEntry_bindings_iff]

end ImportTable

end CodeOutline
