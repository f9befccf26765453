import CodeOutline.Proofs.Reaching
import CodeOutline.Proofs.SourceOrder

/-!
# Calls in declarations of variables

A declaration such as `const a = …, b = …` may bind several functions. Each of them is a symbol that
covers the whole declaration and not its own part of it, so around a call in the value of one
declarator all of them are equally narrow, and the first is taken.

**Theorem (`callers_in_declarators`).** A call in the value of a declarator is made by the innermost
routine around it inside the value. If there is none, it is made by the first function that the
declaration binds, whichever declarator binds it. If the declaration binds no function, it is made
by the innermost routine around the declaration.

The proof splits the routines that cover the call in the order of the file: those declared above
the declaration, then those found in it, then again some declared above. All of the first and the
last are wider than the declaration; of those in the middle, the ones the declaration itself
declares are exactly as wide, and the others lie in the value.
-/

namespace CodeOutline

open CodeOutline.Tree

/-! ## The first of the narrowest -/

namespace Declared

theorem foldl_narrower_of_le {d : Declared} {ds : List Declared}
    (h : ∀ e ∈ ds, d.width ≤ e.width) : ds.foldl narrower (some d) = some d := by
  induction ds with
  | nil => rfl
  | cons e ds ih =>
    have hle := h e List.mem_cons_self
    rw [List.foldl_cons, narrower, if_neg (Nat.not_lt.mpr hle)]
    exact ih fun f hf => h f (List.mem_cons_of_mem e hf)

/-- A declaration that is narrower than those before it, and not wider than those after it, is the
innermost. -/
theorem innermost?_eq_some {scopes : List Declared} {offset : Nat} {xs ys : List Declared}
    {d : Declared} (hsplit : scopes.filter (fun e => e.covers offset) = xs ++ d :: ys)
    (hbefore : ∀ e ∈ xs, d.width < e.width) (hafter : ∀ e ∈ ys, d.width ≤ e.width) :
    innermost? scopes offset = some d := by
  have hfirst : narrower (xs.foldl narrower none) d = some d := by
    cases xs with
    | nil => rfl
    | cons b xs =>
      obtain ⟨e, he, hfold, _⟩ := exists_foldl_narrower b xs
      have hbest : (b :: xs).foldl narrower none = some e := hfold
      rw [hbest, narrower, if_pos (hbefore e he)]
  rw [innermost?, hsplit, List.foldl_append, List.foldl_cons, hfirst]
  exact foldl_narrower_of_le hafter

/-- The innermost declaration covers the offset, and none that does is narrower. -/
theorem innermost?_spec {scopes : List Declared} {offset : Nat} {d : Declared}
    (h : innermost? scopes offset = some d) :
    d ∈ scopes ∧ d.covers offset = true ∧
      ∀ e ∈ scopes, e.covers offset = true → d.width ≤ e.width := by
  by_cases hex : ∃ c ∈ scopes, c.covers offset = true
  · obtain ⟨c, hc, hcovers⟩ := hex
    obtain ⟨e, he, hsome, hcov, hmin⟩ := exists_innermost? hc hcovers
    rw [h] at hsome
    rw [Option.some.inj hsome]
    exact ⟨he, hcov, hmin⟩
  · have hnone : innermost? scopes offset = none := by
      apply innermost?_eq_none
      intro c hc
      by_contra hcovers
      exact hex ⟨c, hc, by simpa using hcovers⟩
    rw [h] at hnone
    cases hnone

/-- The declaration lies in the bytes of the node. -/
def liesIn (d : Declared) (t : Tree) : Bool := t.start ≤ d.start && d.stop ≤ t.stop

/-- The declaration covers the bytes of the node and no others. -/
def fits (d : Declared) (t : Tree) : Bool := d.start == t.start && d.stop == t.stop

/-- The declaration covers the bytes of the node and others. -/
def surrounds (d : Declared) (t : Tree) : Bool :=
  d.start ≤ t.start && t.stop ≤ d.stop && !d.fits t

variable {d : Declared} {t : Tree}

theorem liesIn_iff : d.liesIn t = true ↔ t.start ≤ d.start ∧ d.stop ≤ t.stop := by
  rw [liesIn, Bool.and_eq_true, decide_eq_true_eq, decide_eq_true_eq]

theorem fits_iff : d.fits t = true ↔ d.start = t.start ∧ d.stop = t.stop := by
  rw [fits, Bool.and_eq_true, beq_iff_eq, beq_iff_eq]

theorem surrounds_iff : d.surrounds t = true ↔
    (d.start ≤ t.start ∧ t.stop ≤ d.stop) ∧ ¬ (d.start = t.start ∧ d.stop = t.stop) := by
  rw [surrounds, Bool.and_eq_true, Bool.and_eq_true, decide_eq_true_eq, decide_eq_true_eq,
    Bool.not_eq_true', ← Bool.not_eq_true, fits_iff]

end Declared

/-- The name of the innermost declaration around an offset. -/
def callerName (scopes : List Declared) (offset : Nat) : String :=
  ((Declared.innermost? scopes offset).map fun d => d.symbol.name).getD Call.outermost

/-- The innermost declaration is the innermost of those with a property that it has. -/
theorem callerAt_filter {src : String} {root : Tree} (hwell : root.WellNested)
    {scopes : List Declared} (hspans : ∀ d ∈ scopes, ∃ s ∈ root.nodes, d.Spans src s)
    {p : Declared → Bool} {offset : Nat}
    (h : ∀ d, Declared.innermost? scopes offset = some d → p d = true) :
    CallerAt (scopes.filter p) offset (callerName scopes offset) := by
  rw [callerName]
  cases hinner : Declared.innermost? scopes offset with
  | none =>
    refine ⟨fun _ => rfl, ?_⟩
    rintro ⟨c, hc, hcovers⟩
    obtain ⟨d, _, hsome, _⟩ := Declared.exists_innermost? (List.mem_of_mem_filter hc) hcovers
    rw [hinner] at hsome
    cases hsome
  | some d =>
    obtain ⟨hd, hcovers, hmin⟩ := Declared.innermost?_spec hinner
    have hmem : d ∈ scopes.filter p := List.mem_filter.mpr ⟨hd, h d hinner⟩
    refine ⟨fun hnone => ?_, fun _ => ⟨d, hmem, hcovers, rfl, fun e he hcov => ?_⟩⟩
    · rw [hnone d hmem] at hcovers
      cases hcovers
    · have he := List.mem_of_mem_filter he
      obtain ⟨s, hs, hds⟩ := hspans d hd
      obtain ⟨t, ht, het⟩ := hspans e he
      exact Declared.inside_of_width_le hwell hs hds ht het hcovers hcov (hmin e he hcov)

/-- `caller` makes a call at the offset, which is in `value`, a part of `declaration`: the innermost
routine inside the value, or else the one named `first`, or else the innermost routine around the
declaration. -/
structure CallerInValue (routines : List Declared) (declaration value : Tree)
    (first : Option String) (offset : Nat) (caller : String) : Prop where
  inside : (∃ r ∈ routines, r.liesIn value = true ∧ r.covers offset = true) →
    CallerAt (routines.filter (·.liesIn value)) offset caller
  bound : (∀ r ∈ routines, r.liesIn value = true → r.covers offset = false) →
    ∀ name, first = some name → caller = name
  around : (∀ r ∈ routines, r.liesIn value = true → r.covers offset = false) →
    first = none → CallerAt (routines.filter (·.surrounds declaration)) offset caller

/-- The routines around an offset are, in order, some that surround the declaration, some that it
declares itself or that lie in the value, and again some that surround it. -/
structure SplitAround (routines : List Declared) (declaration value : Tree) (offset : Nat)
    (before here after : List Declared) : Prop where
  split : routines.filter (fun d => d.covers offset) = before ++ here ++ after
  wide : ∀ d ∈ before ++ after, d.surrounds declaration = true
  fitting : ∀ d ∈ here, d.fits declaration = true ∨ d.liesIn value = true
  inside : declaration.Encloses value
  smaller : value.range ≠ declaration.range
  holds : value.start ≤ offset ∧ offset < value.stop

namespace SplitAround

variable {src : String} {root : Tree} {routines : List Declared} {declaration value : Tree}
  {offset : Nat} {before here after : List Declared} {d : Declared}

theorem width_lt_of_wide (h : SplitAround routines declaration value offset before here after)
    (hd : d ∈ before ++ after) : declaration.stop - declaration.start < d.width := by
  have hwide := Declared.surrounds_iff.mp (h.wide d hd)
  have hin := h.inside
  have hholds := h.holds
  simp only [Encloses, Declared.width] at *
  omega

theorem width_of_fits (hd : d.fits declaration = true) :
    d.width = declaration.stop - declaration.start := by
  obtain ⟨hstart, hstop⟩ := Declared.fits_iff.mp hd
  rw [Declared.width, hstart, hstop]

theorem width_lt_of_liesIn (h : SplitAround routines declaration value offset before here after)
    (hd : d.liesIn value = true) : d.width < declaration.stop - declaration.start := by
  have hlies := Declared.liesIn_iff.mp hd
  have hin := h.inside
  have hsmaller := h.smaller
  have hholds := h.holds
  simp only [Encloses, Tree.range, ne_eq, Prod.mk.injEq, Declared.width] at *
  omega

theorem mem_of_innermost? (h : SplitAround routines declaration value offset before here after)
    (hd : Declared.innermost? routines offset = some d) : d ∈ before ++ after ∨ d ∈ here := by
  obtain ⟨hmem, hcovers, _⟩ := Declared.innermost?_spec hd
  have hlisted : d ∈ routines.filter fun d => d.covers offset :=
    List.mem_filter.mpr ⟨hmem, hcovers⟩
  rw [h.split] at hlisted
  simp only [List.mem_append] at hlisted ⊢
  tauto

/-- What lies in the value is narrower than all that does not. -/
theorem liesIn_of_innermost? (h : SplitAround routines declaration value offset before here after)
    {r : Declared} (hr : r ∈ routines) (hlies : r.liesIn value = true)
    (hcovers : r.covers offset = true) (hd : Declared.innermost? routines offset = some d) :
    d.liesIn value = true := by
  have hle := (Declared.innermost?_spec hd).2.2 r hr hcovers
  have hlt := h.width_lt_of_liesIn hlies
  rcases h.mem_of_innermost? hd with hmem | hmem
  · have hwide := h.width_lt_of_wide hmem
    omega
  · rcases h.fitting d hmem with hfits | hin
    · have hwidth := width_of_fits hfits
      omega
    · exact hin

/-- Where nothing in the value covers the offset, all that is found in the declaration is declared
by the declaration itself. -/
theorem fits_of_mem (h : SplitAround routines declaration value offset before here after)
    (hnone : ∀ r ∈ routines, r.liesIn value = true → r.covers offset = false) (hd : d ∈ here) :
    d.fits declaration = true := by
  have hlisted : d ∈ routines.filter fun d => d.covers offset := by
    rw [h.split]
    exact List.mem_append_left after (List.mem_append_right before hd)
  obtain ⟨hmem, hcovers⟩ := List.mem_filter.mp hlisted
  rcases h.fitting d hd with hfits | hlies
  · exact hfits
  · rw [hnone d hmem hlies] at hcovers
    cases hcovers

/-- The first that the declaration declares is the innermost, since those before it are wider. -/
theorem innermost?_eq_head (h : SplitAround routines declaration value offset before here after)
    (hnone : ∀ r ∈ routines, r.liesIn value = true → r.covers offset = false)
    {rest : List Declared} (hhere : here = d :: rest) :
    Declared.innermost? routines offset = some d := by
  have hwidth : ∀ e ∈ here, e.width = declaration.stop - declaration.start := fun e he =>
    width_of_fits (h.fits_of_mem hnone he)
  have hd := hwidth d (hhere ▸ List.mem_cons_self)
  have hsplit := h.split
  rw [hhere, List.append_assoc, List.cons_append] at hsplit
  refine Declared.innermost?_eq_some hsplit (fun e he => ?_) (fun e he => ?_)
  · rw [hd]
    exact h.width_lt_of_wide (List.mem_append_left after he)
  · rw [hd]
    rcases List.mem_append.mp he with he | he
    · exact (hwidth e (hhere ▸ List.mem_cons_of_mem d he)).ge
    · exact (h.width_lt_of_wide (List.mem_append_right before he)).le

/-- **The caller** is found inside the value, or is the first that the declaration declares, or is
found around the declaration. -/
theorem callerInValue (h : SplitAround routines declaration value offset before here after)
    (hwell : root.WellNested) (hspans : ∀ d ∈ routines, ∃ s ∈ root.nodes, d.Spans src s) :
    CallerInValue routines declaration value
      ((here.filter (·.fits declaration)).head?.map (·.symbol.name)) offset
      (callerName routines offset) where
  inside := by
    rintro ⟨r, hr, hlies, hcovers⟩
    exact callerAt_filter hwell hspans fun d hd => h.liesIn_of_innermost? hr hlies hcovers hd
  bound := by
    intro hnone name hname
    rw [List.filter_eq_self.mpr fun d hd => h.fits_of_mem hnone hd] at hname
    cases here with
    | nil => cases hname
    | cons d rest =>
      rw [callerName, h.innermost?_eq_head hnone rfl]
      exact Option.some.inj hname
  around := by
    intro hnone hbound
    rw [List.filter_eq_self.mpr fun d hd => h.fits_of_mem hnone hd, Option.map_eq_none_iff,
      List.head?_eq_none_iff] at hbound
    refine callerAt_filter hwell hspans fun d hd => ?_
    rcases h.mem_of_innermost? hd with hmem | hmem
    · exact h.wide d hmem
    · rw [hbound] at hmem
      cases hmem

end SplitAround

namespace TypeScript

variable {src : String} {scope : Scope} {c : Cursor}

/-! ## What a declaration lists -/

def declarationKinds : List String := ["lexical_declaration", "variable_declaration"]

def declarators (c : Cursor) : List Cursor :=
  c.namedChildren.filter fun d => d.node.kind == "variable_declarator"

theorem mem_children_of_mem_declarators {d : Cursor} (h : d ∈ declarators c) : d ∈ c.children :=
  List.mem_of_mem_filter (List.mem_of_mem_filter h)

/-- The full name of the function that a declarator binds. -/
def boundFunction? (src : String) (scope : Scope) (declarator : Cursor) : Option String :=
  match declarator.node.field? "name", declarator.field? "value" with
  | some pattern, some value =>
    if pattern.kind == "identifier" && isFunction value.node then
      some (scope.qualify (pattern.text src))
    else none
  | _, _ => none

theorem rule_of_declaration (hscope : scope.container ≠ .type)
    (hkind : c.node.kind ∈ declarationKinds) :
    rule src scope c = declarationItems src scope c := by
  rw [rule, if_neg hscope, statementItems]
  rcases List.mem_pair.mp hkind with hkind | hkind <;> simp only [hkind]

/-- A declaration lists what its declarators do, each with the offset where its head begins. -/
theorem exists_declarationItems_eq (src : String) (scope : Scope) (c : Cursor) :
    ∃ heads : List (Cursor × Nat), heads.map Prod.fst = declarators c ∧
      declarationItems src scope c =
        heads.flatMap fun head => declaratorItems src scope c head.1 head.2 := by
  unfold declarationItems
  cases hdeclarators : declarators c with
  | nil =>
    rw [declarators] at hdeclarators
    rw [hdeclarators]
    exact ⟨[], rfl, rfl⟩
  | cons first rest =>
    rw [declarators] at hdeclarators
    rw [hdeclarators]
    refine ⟨(first, headStart c) :: rest.map fun d => (d, d.node.start), ?_, ?_⟩
    · rw [List.map_cons, List.map_map]
      exact congrArg (first :: ·) (List.map_id rest)
    · rw [List.flatMap_cons, List.flatMap_map]

section Declarator

variable {declarator : Cursor} {start : Nat} {name : String}

/-- A variable is declared by the whole declaration. -/
theorem spans_of_mem_variableItems {item : Item}
    (h : item ∈ variableItems src scope c declarator start name) :
    item.Each (·.Spans src c.node) := by
  simp only [variableItems] at h
  split at h
  · rcases List.mem_pair.mp h with rfl | rfl
    · exact ⟨rfl, rfl, rfl, rfl⟩
    · trivial
  · rcases List.mem_append.mp h with h | h
    · split at h
      · cases h
      · obtain rfl := List.mem_singleton.mp h
        exact ⟨rfl, rfl, rfl, rfl⟩
    · exact Item.each_of_mem_within h

theorem spans_of_mem_declaratorItems {item : Item}
    (h : item ∈ declaratorItems src scope c declarator start) : item.Each (·.Spans src c.node) := by
  unfold declaratorItems at h
  split at h
  · cases h
  · split at h
    · exact (Silent.imports _ id).each h
    · split at h
      · exact spans_of_mem_variableItems h
      · cases h

/-- Nothing but the value of a declarator is looked into. -/
theorem places_variableItems :
    ∃ value, Item.places (variableItems src scope c declarator start name) = Option.toList value ∧
      ∀ v ∈ value, declarator.field? "value" = some v := by
  simp only [variableItems]
  split
  · next function hfunction =>
    exact ⟨some function, rfl, fun v hv => hv ▸ (Option.filter_eq_some_iff.mp hfunction).1⟩
  · refine ⟨declarator.field? "value", ?_, fun v hv => hv⟩
    rw [Item.places_append, Item.places_within]
    split <;> rfl

theorem places_declaratorItems (src : String) (scope : Scope) (c declarator : Cursor)
    (start : Nat) :
    ∃ value, Item.places (declaratorItems src scope c declarator start) = Option.toList value ∧
      ∀ v ∈ value, declarator.field? "value" = some v := by
  have hnone : ∃ value, ([] : List Cursor) = Option.toList value ∧
      ∀ v ∈ value, declarator.field? "value" = some v := ⟨none, rfl, fun v hv => by cases hv⟩
  unfold declaratorItems
  split
  · exact hnone
  · split
    · rw [Item.places_imports]
      exact hnone
    · split
      · exact places_variableItems
      · exact hnone

theorem field?_of_enter_mem {place : Cursor} {inner : Scope}
    (h : .enter place inner ∈ declaratorItems src scope c declarator start) :
    declarator.field? "value" = some place := by
  obtain ⟨value, hplaces, hvalue⟩ :=
    places_declaratorItems src scope c declarator start
  have hmem := Item.mem_places h
  rw [hplaces] at hmem
  exact hvalue place (Option.mem_toList.mp hmem)

end Declarator

theorem parted_declarationItems (hwell : c.node.WellNested) :
    Parted src c.node (declarationItems src scope c) := by
  obtain ⟨heads, hheads, hitems⟩ := exists_declarationItems_eq src scope c
  have hdeclarators : Ascending c.node.start c.node.stop
      (heads.map fun head => head.1.node.range) := by
    have hall : Ascending c.node.start c.node.stop
        ((declarators c).map fun d => d.node.range) :=
      (Cursor.ascending_namedChildren hwell).sublist (List.filter_sublist.map _)
    rwa [← hheads, List.map_map] at hall
  rw [hitems]
  refine ⟨?_, fun place inner _ d hd => ?_⟩
  · rw [Item.places_flatMap, List.map_flatMap]
    refine hdeclarators.flatMap fun head hhead => ?_
    have hin : head.1 ∈ declarators c := hheads ▸ List.mem_map_of_mem hhead
    have hdwell : head.1.node.WellNested :=
      hwell.of_mem (Cursor.mem_nodes_of_mem_children (mem_children_of_mem_declarators hin))
    obtain ⟨value, hplaces, hvalue⟩ := places_declaratorItems src scope c head.1 head.2
    rw [hplaces]
    cases value with
    | none => exact hdwell.start_le_stop
    | some v =>
      have hv := (Cursor.leads_of_field? (hvalue v rfl)).1
      have hencloses := hdwell.encloses hv
      exact ⟨hencloses.1, (hdwell.of_mem hv).start_le_stop, hencloses.2⟩
  · obtain ⟨head, _, hd⟩ := List.mem_flatMap.mp hd
    exact spans_of_mem_declaratorItems hd

/-! ## The rule is parted -/

section Own

variable {item : Item}

theorem spans_of_mem_classItems (h : item ∈ classItems src scope c) :
    item.Each (·.Spans src c.node) := by
  unfold classItems at h
  split at h
  · cases h
  · refine Item.each_of_mem_declare (fun other hother => ?_) h
    rcases List.mem_append.mp hother with hother | hother
    · exact (Silent.flatMap (silent_inheritClause _)).each hother
    · exact Item.each_of_mem_within hother

theorem spans_of_mem_methodItems (h : item ∈ methodItems src scope c) :
    item.Each (·.Spans src c.node) := by
  unfold methodItems at h
  split at h
  · cases h
  · exact Item.each_of_mem_declare (fun _ => Item.each_of_mem_within) h

theorem spans_of_mem_fieldItems (h : item ∈ fieldItems src scope c) :
    item.Each (·.Spans src c.node) := by
  unfold fieldItems at h
  split at h
  · cases h
  · exact Item.each_of_mem_declare (fun _ => Item.each_of_mem_within) h

theorem spans_of_mem_functionItems (h : item ∈ functionItems src scope c) :
    item.Each (·.Spans src c.node) := by
  unfold functionItems at h
  split at h
  · cases h
  · exact Item.each_of_mem_declare (fun _ => Item.each_of_mem_within) h

theorem spans_of_mem_namespaceItems (h : item ∈ namespaceItems src scope c) :
    item.Each (·.Spans src c.node) := by
  unfold namespaceItems at h
  split at h
  · cases h
  · exact Item.each_of_mem_declare (fun _ => Item.each_of_mem_within) h

theorem spans_of_mem_memberItems (h : item ∈ memberItems src scope c) :
    item.Each (·.Spans src c.node) := by
  unfold memberItems at h
  split at h
  iterate 3 · exact spans_of_mem_methodItems h
  iterate 2 · exact spans_of_mem_fieldItems h
  · exact List.mem_singleton.mp h ▸ trivial
  · cases h

theorem enter_not_mem_interfaceItems (place : Cursor) (inner : Scope) :
    .enter place inner ∉ interfaceItems src scope c := by
  intro h
  unfold interfaceItems at h
  split at h
  · cases h
  · rcases List.mem_cons.mp h with hdeclared | h
    · cases hdeclared
    · rcases List.mem_append.mp h with h | h
      · exact (Silent.flatMap (silent_inheritClause _)).enter_not_mem place inner h
      · obtain ⟨m, _, hitem⟩ := List.mem_filterMap.mp h
        obtain ⟨_, _, _, _, _, _, _, heq⟩ := declaredBy_interfaceMember? hitem
        cases heq

theorem enter_not_mem_enumItems (place : Cursor) (inner : Scope) :
    .enter place inner ∉ enumItems src scope c := by
  intro h
  unfold enumItems at h
  split at h
  · cases h
  · rcases List.mem_cons.mp h with hdeclared | h
    · cases hdeclared
    · obtain ⟨m, _, hitem⟩ := List.mem_filterMap.mp h
      obtain ⟨_, _, _, _, _, _, _, heq⟩ := declaredBy_enumMember? hitem
      cases heq

/-- Where a statement is looked into, all that it declares it declares itself. -/
theorem spans_of_mem_statementItems (hkind : c.node.kind ∉ declarationKinds) {place : Cursor}
    {inner : Scope} (hplace : .enter place inner ∈ statementItems src scope c)
    (h : item ∈ statementItems src scope c) : item.Each (·.Spans src c.node) := by
  have henter : item ∈ [Item.enter c scope] → item.Each (·.Spans src c.node) :=
    fun h => List.mem_singleton.mp h ▸ trivial
  unfold statementItems at h
  split at h
  · exact (Silent.imports _ id).each h
  · split at h
    · exact (Silent.imports _ id).each h
    · exact henter h
  iterate 2 · exact spans_of_mem_classItems h
  · next hinterface =>
    simp only [statementItems, hinterface] at hplace
    exact absurd hplace (enter_not_mem_interfaceItems place inner)
  · next henum =>
    simp only [statementItems, henum] at hplace
    exact absurd hplace (enter_not_mem_enumItems place inner)
  · obtain ⟨name, _, rfl⟩ := List.mem_map.mp h
    exact ⟨rfl, rfl, rfl, rfl⟩
  iterate 2 · exact spans_of_mem_functionItems h
  iterate 2 · next hdeclaration => simp [hdeclaration, declarationKinds] at hkind
  iterate 2 · exact spans_of_mem_namespaceItems h
  · exact henter h

end Own

theorem parts_rule : (rule src).Parts src := by
  intro scope c hwell
  by_cases hscope : scope.container = .type
  · rw [rule, if_pos hscope]
    exact ⟨(inOrder_memberItems hwell).ascending_places,
      fun _ _ _ d hd => spans_of_mem_memberItems hd⟩
  · by_cases hkind : c.node.kind ∈ declarationKinds
    · rw [rule_of_declaration hscope hkind]
      exact parted_declarationItems hwell
    · rw [rule, if_neg hscope]
      have hsingle : SingleDeclarator c.node := fun hdeclaration => absurd hdeclaration hkind
      exact ⟨(inOrder_statementItems hwell hsingle).ascending_places,
        fun place inner hplace d hd => spans_of_mem_statementItems hkind hplace hd⟩

/-! ## Functions that a declaration binds -/

/-- The routine that an item declares. -/
def routine? : Item → Option Declared
  | .found (.symbol d) => if d.symbol.kind.isCaller then some d else none
  | _ => none

theorem not_isFunction_of_requiredPath? {value : Tree} {path : String}
    (h : requiredPath? src value = some path) : isFunction value = false := by
  by_cases hcall : value.kind = "call_expression"
  · rw [isFunction, hcall]
    decide
  · simp [requiredPath?, hcall] at h

theorem map_name_routines_variableItems (c declarator : Cursor) (start : Nat) (name : String) :
    ((variableItems src scope c declarator start name).filterMap routine?).map (·.symbol.name) =
      ((declarator.field? "value").filter fun v => isFunction v.node).toList.map
        fun _ => scope.qualify name := by
  have hwithin : ∀ (place : Option Cursor) (inner : Scope),
      (Item.within place inner).filterMap routine? = [] := by
    intro place inner
    cases place <;> rfl
  simp only [variableItems]
  split
  · next function hfunction =>
    rw [hfunction]
    rfl
  · next hnone =>
    rw [hnone, List.filterMap_append, hwithin, List.append_nil]
    split <;> rfl

/-- The only routine that a declarator declares is the function that it binds. -/
theorem map_name_routines_declaratorItems (c declarator : Cursor) (start : Nat) :
    ((declaratorItems src scope c declarator start).filterMap routine?).map (·.symbol.name) =
      (boundFunction? src scope declarator).toList := by
  have hnode := Cursor.map_node_field? declarator "value"
  rw [declaratorItems, boundFunction?]
  cases declarator.node.field? "name" with
  | none => rfl
  | some pattern =>
    simp only
    split
    · next path hpath =>
      -- a module that is loaded is no function
      obtain ⟨value, hvalue, hrequired⟩ := Option.bind_eq_some_iff.mp hpath
      rw [hvalue, Option.map_eq_some_iff] at hnode
      obtain ⟨v, hv, rfl⟩ := hnode
      have himports :
          ((requireImports src path pattern).map Item.imports).filterMap routine? = [] := by
        refine List.filterMap_eq_nil_iff.mpr fun item hitem => ?_
        obtain ⟨i, _, rfl⟩ := List.mem_map.mp hitem
        rfl
      rw [himports, hv]
      simp [not_isFunction_of_requiredPath? hrequired]
    · split
      · next hidentifier =>
        rw [map_name_routines_variableItems]
        cases declarator.field? "value" with
        | none => rfl
        | some v =>
          by_cases hfunction : isFunction v.node = true
          · simp [hidentifier, hfunction, Option.filter]
          · simp [hfunction, Option.filter]
      · next hidentifier =>
        cases declarator.field? "value" with
        | none => rfl
        | some v => simp [hidentifier]

/-! ## Callers in the value of a declarator -/

/-- The value of one of the declarators of a declaration that the rule comes to. No other node than
the root covers the same bytes as the declaration. -/
structure BoundValue (src : String) (root : Tree) (scope : Scope)
    (declaration declarator value : Cursor) : Prop where
  reached : (rule src).Reaches root scope declaration
  outside : scope.container ≠ .type
  isDeclaration : declaration.node.kind ∈ declarationKinds
  alone : ∀ s ∈ root.nodes, s.range = declaration.node.range → s = declaration.node ∨ s = root
  isDeclarator : declarator ∈ declarators declaration
  isValue : declarator.field? "value" = some value

namespace BoundValue

variable {root : Tree} {declaration declarator value : Cursor}

theorem below_root (h : BoundValue src root scope declaration declarator value) :
    declaration.node.Below root :=
  h.reached.below_root anchored_rule.isLocal

/-- What is below the declaration, or above it and below the root, covers other bytes. -/
theorem range_ne (h : BoundValue src root scope declaration declarator value) {s : Tree}
    (hroot : s.Below root) (hs : s.Below declaration.node ∨ declaration.node.Below s) :
    s.range ≠ declaration.node.range := by
  intro hrange
  rcases h.alone s hroot.mem_nodes hrange with rfl | rfl
  · rcases hs with hs | hs <;> exact absurd hs.height_lt (Nat.lt_irrefl _)
  · exact absurd hroot.height_lt (Nat.lt_irrefl _)

theorem below_of_field? {d v : Cursor} (hd : d ∈ declarators declaration)
    (hv : d.field? "value" = some v) : v.node.Below declaration.node :=
  (Cursor.below_of_mem_children (mem_children_of_mem_declarators hd)).of_mem
    (Cursor.leads_of_field? hv).1

/-- A symbol found in the declaration covers all of it, or lies in the value of a declarator. -/
theorem fits_or_mem_value {levels : Nat} {d : Declared}
    (hd : .symbol d ∈ (declarationItems src scope declaration).flatMap ((rule src).follow levels)) :
    d.fits declaration.node = true ∨ ∃ other ∈ declarators declaration, ∃ v,
      other.field? "value" = some v ∧ ∃ s ∈ v.node.nodes, d.Spans src s := by
  obtain ⟨heads, hheads, hitems⟩ := exists_declarationItems_eq src scope declaration
  rw [hitems, List.flatMap_assoc, List.mem_flatMap] at hd
  obtain ⟨head, hhead, hd⟩ := hd
  obtain ⟨item, hitem, hd⟩ := List.mem_flatMap.mp hd
  cases item with
  | found finding =>
    obtain rfl := List.mem_singleton.mp hd
    have hspans : d.Spans src declaration.node := spans_of_mem_declaratorItems hitem
    exact Or.inl (Declared.fits_iff.mpr ⟨hspans.start, hspans.stop⟩)
  | enter place inner =>
    have hother : head.1 ∈ declarators declaration := hheads ▸ List.mem_map_of_mem hhead
    obtain ⟨s, hs, hspans⟩ := anchored_rule.isLocal.spans_explore hd
    exact Or.inr ⟨head.1, hother, place, field?_of_enter_mem hitem, s, hs, hspans⟩

/-- The routines that cover all of the declaration are the functions that it binds. -/
theorem map_name_fitting (h : BoundValue src root scope declaration declarator value)
    (levels : Nat) :
    ((((declarationItems src scope declaration).flatMap
        ((rule src).follow levels)).filterMap Finding.symbol?).filter
          fun d => d.symbol.kind.isCaller && d.fits declaration.node).map (·.symbol.name) =
      (declarators declaration).filterMap (boundFunction? src scope) := by
  obtain ⟨heads, hheads, hitems⟩ := exists_declarationItems_eq src scope declaration
  -- item by item: what is found in a value does not cover all of the declaration
  have hfollow : ∀ head ∈ heads, ∀ item ∈ declaratorItems src scope declaration head.1 head.2,
      (((rule src).follow levels item).filterMap Finding.symbol?).filter
        (fun d => d.symbol.kind.isCaller && d.fits declaration.node) = (routine? item).toList := by
    intro head hhead item hitem
    have hother : head.1 ∈ declarators declaration := hheads ▸ List.mem_map_of_mem hhead
    cases item with
    | enter place inner =>
      refine List.filter_eq_nil_iff.mpr fun d hd hfits => ?_
      obtain ⟨s, hs, hspans⟩ :=
        anchored_rule.isLocal.spans_explore (Finding.mem_filterMap_symbol?.mp hd)
      have hbelow := (below_of_field? hother (field?_of_enter_mem hitem)).of_mem hs
      refine h.range_ne (hbelow.trans_mem h.below_root.mem_nodes) (Or.inl hbelow) ?_
      obtain ⟨hstart, hstop⟩ := Declared.fits_iff.mp (Bool.and_eq_true_iff.mp hfits).2
      rw [Tree.range, Tree.range, ← hspans.start, ← hspans.stop, hstart, hstop]
    | found finding =>
      cases finding with
      | symbol d =>
        have hspans : d.Spans src declaration.node := spans_of_mem_declaratorItems hitem
        have hfits : d.fits declaration.node = true :=
          Declared.fits_iff.mpr ⟨hspans.start, hspans.stop⟩
        by_cases hcaller : d.symbol.kind.isCaller = true
        · simp [Rule.follow, Finding.symbol?, routine?, hcaller, hfits]
        · simp [Rule.follow, Finding.symbol?, routine?, hcaller]
      | _ => rfl
  rw [hitems, ← hheads, List.flatMap_assoc, List.filterMap_flatMap, List.filter_flatMap,
    List.map_flatMap, List.filterMap_map, List.filterMap_eq_flatMap_toList]
  refine List.flatMap_congr fun head hhead => ?_
  rw [List.filterMap_flatMap, List.filter_flatMap, List.flatMap_congr (hfollow head hhead),
    ← List.filterMap_eq_flatMap_toList]
  exact map_name_routines_declaratorItems ..

/-- The values of two declarators that hold the same offset are the same. -/
theorem node_eq_of_common (h : BoundValue src root scope declaration declarator value)
    (hwell : declaration.node.WellNested) {other v : Cursor}
    (hother : other ∈ declarators declaration)
    (hv : other.field? "value" = some v) {offset : Nat}
    (hin : value.node.start ≤ offset ∧ offset < value.node.stop)
    (hinOther : v.node.start ≤ offset ∧ offset < v.node.stop) : v.node = value.node := by
  have hchild := Cursor.node_mem_children (mem_children_of_mem_declarators h.isDeclarator)
  have hchildOther := Cursor.node_mem_children (mem_children_of_mem_declarators hother)
  have hencloses := (hwell.of_mem (mem_nodes_of_mem_children hchild)).encloses
    (Cursor.leads_of_field? h.isValue).1
  have henclosesOther := (hwell.of_mem (mem_nodes_of_mem_children hchildOther)).encloses
    (Cursor.leads_of_field? hv).1
  rcases (hwell _ (self_mem_nodes _)).eq_or_apart hchildOther hchild with heq | hapart
  · have hsame : v.node ∈ declarator.node.field? "value" := by
      rw [← heq, ← Cursor.map_node_field?, hv]
      rfl
    rw [← Cursor.map_node_field?, h.isValue] at hsame
    exact (Option.some.inj hsame).symm
  · simp only [Encloses] at hencloses henclosesOther
    omega

/-- **Routines around an offset in a value**, in the order of the file. -/
theorem exists_splitAround (h : BoundValue src root scope declaration declarator value)
    (hwell : root.WellNested) {offset : Nat}
    (hin : value.node.start ≤ offset ∧ offset < value.node.stop) :
    ∃ before here after, SplitAround (dialect.callers src root) declaration.node value.node offset
        before here after ∧
      (here.filter (·.fits declaration.node)).map (·.symbol.name) =
        (declarators declaration).filterMap (boundFunction? src scope) := by
  have hdwell := hwell.of_mem h.below_root.mem_nodes
  have hbelow := below_of_field? h.isDeclarator h.isValue
  have hencloses := hdwell.encloses hbelow.mem_nodes
  have hholds : declaration.node.start ≤ offset ∧ offset < declaration.node.stop :=
    ⟨Nat.le_trans hencloses.1 hin.1, Nat.lt_of_lt_of_le hin.2 hencloses.2⟩
  obtain ⟨levels, before, after, houter, hsymbols⟩ :=
    h.reached.exists_symbolsAt anchored_rule.isLocal parts_rule hwell hholds
  rw [rule_of_declaration h.outside h.isDeclaration] at hsymbols
  let found := (declarationItems src scope declaration).flatMap ((rule src).follow levels)
  refine ⟨before.filter (·.symbol.kind.isCaller),
    (symbolsAt offset found).filter (·.symbol.kind.isCaller),
    after.filter (·.symbol.kind.isCaller), ⟨?_, ?_, ?_, hencloses, ?_, hin⟩, ?_⟩
  · rw [← List.filter_append, ← List.filter_append, ← hsymbols, symbolsAt, Dialect.callers,
      Dialect.declared, List.filter_filter, List.filter_filter]
    simp only [Bool.and_comm]
    rfl
  · intro d hd
    rw [← List.filter_append] at hd
    obtain ⟨t, hspans, hroot, habove⟩ := houter d (List.mem_of_mem_filter hd)
    have haround := (hwell.of_mem hroot.mem_nodes).encloses habove.mem_nodes
    have hne := h.range_ne hroot (Or.inr habove)
    rw [Declared.surrounds_iff, hspans.start, hspans.stop]
    exact ⟨haround, fun heq => hne (Prod.ext heq.1 heq.2)⟩
  · intro d hd
    obtain ⟨hd, hcovers⟩ := mem_symbolsAt.mp (List.mem_of_mem_filter hd)
    rcases fits_or_mem_value hd with hfits | ⟨other, hother, v, hv, s, hs, hspans⟩
    · exact Or.inl hfits
    · have hvwell := hdwell.of_mem (below_of_field? hother hv).mem_nodes
      have hinOther := hspans.covers_inside hs hvwell hcovers
      have hlies := hvwell.encloses hs
      rw [h.node_eq_of_common hdwell hother hv hin hinOther] at hlies
      refine Or.inr (Declared.liesIn_iff.mpr ?_)
      rw [hspans.start, hspans.stop]
      exact hlies
  · exact h.range_ne (hbelow.trans_mem h.below_root.mem_nodes) (Or.inl hbelow)
  · rw [← h.map_name_fitting levels, symbolsAt, List.filter_filter, List.filter_filter]
    congr 1
    refine List.filter_congr fun d _ => ?_
    by_cases hfits : d.fits declaration.node = true
    · have hcovers : d.covers offset = true := by
        rw [Declared.covers_iff, (Declared.fits_iff.mp hfits).1, (Declared.fits_iff.mp hfits).2]
        exact hholds
      simp [hfits, hcovers]
    · simp [hfits]

theorem callerInValue (h : BoundValue src root scope declaration declarator value)
    (hwell : root.WellNested) {offset : Nat}
    (hin : value.node.start ≤ offset ∧ offset < value.node.stop) :
    CallerInValue (dialect.callers src root) declaration.node value.node
      ((declarators declaration).findSome? (boundFunction? src scope)) offset
      (callerName (dialect.callers src root) offset) := by
  obtain ⟨before, here, after, hsplit, hnames⟩ := h.exists_splitAround hwell hin
  have hspans : ∀ d ∈ dialect.callers src root, ∃ s ∈ root.nodes, d.Spans src s := fun d hd =>
    anchored_rule.isLocal.spans root (Dialect.mem_declared.mp (List.mem_of_mem_filter hd))
  rw [← List.head?_filterMap, ← hnames, List.head?_map]
  exact hsplit.callerInValue hwell hspans

/-- If no other declarator binds a function, the first that is bound is that of the declarator. -/
theorem findSome?_eq (h : BoundValue src root scope declaration declarator value)
    (hothers : ∀ other ∈ declarators declaration, other ≠ declarator →
      boundFunction? src scope other = none) :
    (declarators declaration).findSome? (boundFunction? src scope) =
      boundFunction? src scope declarator := by
  cases hown : boundFunction? src scope declarator with
  | none =>
    refine List.findSome?_eq_none_iff.mpr fun other hother => ?_
    by_cases heq : other = declarator
    · rw [heq, hown]
    · exact hothers other hother heq
  | some name =>
    cases hfirst : (declarators declaration).findSome? (boundFunction? src scope) with
    | none =>
      rw [List.findSome?_eq_none_iff.mp hfirst declarator h.isDeclarator] at hown
      cases hown
    | some other =>
      obtain ⟨d, hd, hbound⟩ := List.exists_of_findSome?_eq_some hfirst
      by_cases heq : d = declarator
      · rw [← hbound, heq, hown]
      · rw [hothers d hd heq] at hbound
        cases hbound

end BoundValue

/-- **Callers in declarations.** A call in the value of a declarator is made by the innermost
routine around it inside the value, or else by the first function that the declaration binds, or
else by the innermost routine around the declaration. If no other declarator binds a function, it is
never made by a function of another declarator. -/
theorem callers_in_declarators {l : Language} (hl : l.dialect = dialect) {root : Tree}
    (hwell : root.WellNested) {declaration declarator value : Cursor}
    (h : BoundValue src root scope declaration declarator value) :
    List.Forall₂
      (fun t call => t ∈ value.node.nodes → t.start < t.stop →
        CallerInValue (l.dialect.callers src root) declaration.node value.node
          ((declarators declaration).findSome? (boundFunction? src scope)) t.start call.caller ∧
        ((∀ other ∈ declarators declaration, other ≠ declarator →
            boundFunction? src scope other = none) →
          CallerInValue (l.dialect.callers src root) declaration.node value.node
            (boundFunction? src scope declarator) t.start call.caller))
      (root.exposed.filter fun t => (l.callSite? src root t).isSome)
      (l.contents src root).calls := by
  refine l.forall₂_callSites.imp ?_
  rintro t call ⟨_, site, _, rfl⟩ ht hnonempty
  have hvwell := hwell.of_mem (mem_nodes_trans
    (BoundValue.below_of_field? h.isDeclarator h.isValue).mem_nodes h.below_root.mem_nodes)
  have hencloses := hvwell.encloses ht
  have hcaller := h.callerInValue hwell
    ⟨hencloses.1, Nat.lt_of_lt_of_le hnonempty hencloses.2⟩
  rw [← hl] at hcaller
  exact ⟨hcaller, fun hothers => h.findSome?_eq hothers ▸ hcaller⟩

/-! ## Two functions in one declaration -/

def twoArrowsSource : String := "const a = () => f(), b = () => g();\n"

/-- The call of the function whose name begins at `start`. -/
def callFrom (start : Nat) : Tree :=
  .node ⟨"call_expression", true, false, false, some "body", start, start + 3⟩
    [.node ⟨"identifier", true, false, false, some "function", start, start + 1⟩ [],
      .node ⟨"arguments", true, false, false, some "arguments", start + 1, start + 3⟩ []]

/-- A function without parameters that makes one call. -/
def arrowFrom (start : Nat) : Tree :=
  .node ⟨"arrow_function", true, false, false, some "value", start, start + 9⟩
    [.node ⟨"formal_parameters", true, false, false, some "parameters", start, start + 2⟩ [],
      .node ⟨"=>", false, false, false, none, start + 3, start + 5⟩ [], callFrom (start + 6)]

/-- A name and an equals sign, after which there is a function. -/
def declaratorFrom (start : Nat) : Tree :=
  .node ⟨"variable_declarator", true, false, false, none, start, start + 13⟩
    [.node ⟨"identifier", true, false, false, some "name", start, start + 1⟩ [],
      .node ⟨"=", false, false, false, none, start + 2, start + 3⟩ [], arrowFrom (start + 4)]

def twoArrows : Tree :=
  .node ⟨"lexical_declaration", true, false, false, none, 0, 35⟩
    [.node ⟨"const", false, false, false, some "kind", 0, 5⟩ [], declaratorFrom 6,
      .node ⟨",", false, false, false, none, 19, 20⟩ [], declaratorFrom 21,
      .node ⟨";", false, false, false, none, 34, 35⟩ []]

def twoArrowsProgram : Tree := .node ⟨"program", true, false, false, none, 0, 36⟩ [twoArrows]

def twoArrowsAt : Cursor := (Cursor.root twoArrowsProgram).childAt [] twoArrows []

def secondAt : Cursor :=
  twoArrowsAt.childAt
    [.node ⟨"const", false, false, false, some "kind", 0, 5⟩ [], declaratorFrom 6,
      .node ⟨",", false, false, false, none, 19, 20⟩ []]
    (declaratorFrom 21) [.node ⟨";", false, false, false, none, 34, 35⟩ []]

def valueAt : Cursor :=
  secondAt.childAt
    [.node ⟨"identifier", true, false, false, some "name", 21, 22⟩ [],
      .node ⟨"=", false, false, false, none, 23, 24⟩ []] (arrowFrom 25) []

theorem boundValue_twoArrows :
    BoundValue twoArrowsSource twoArrowsProgram {} twoArrowsAt secondAt valueAt where
  reached := .child (Cursor.childAt_mem_children rfl) rfl
  outside := by decide
  isDeclaration := by decide
  alone s hs hrange := by
    have hwide : twoArrowsProgram.nodes.filter (fun t => t.range == twoArrows.range) =
        [twoArrows] := rfl
    have hmem : s ∈ [twoArrows] := hwide ▸ List.mem_filter.mpr ⟨hs, beq_iff_eq.mpr hrange⟩
    exact Or.inl (List.mem_singleton.mp hmem)
  isDeclarator := List.mem_filter.mpr
    ⟨List.mem_filter.mpr ⟨Cursor.childAt_mem_children rfl, rfl⟩, rfl⟩
  isValue := rfl

theorem calls_twoArrows :
    (Language.typescript.contents twoArrowsSource twoArrowsProgram).calls.map (·.caller) =
      ["a", "a"] := by
  decide +kernel

theorem wellNested_twoArrowsProgram : twoArrowsProgram.WellNested := by decide

/-- Both functions are bound, and the first is taken for both calls. -/
theorem callers_twoArrows :
    (declarators twoArrowsAt).map (boundFunction? twoArrowsSource {}) = [some "a", some "b"] ∧
    (Language.typescript.contents twoArrowsSource twoArrowsProgram).calls.map (·.caller) =
      ["a", "a"] ∧
    List.Forall₂
      (fun t call => t ∈ (arrowFrom 25).nodes → t.start < t.stop →
        CallerInValue (dialect.callers twoArrowsSource twoArrowsProgram) twoArrows
          (arrowFrom 25) (some "a") t.start call.caller)
      (twoArrowsProgram.exposed.filter fun t =>
        (Language.typescript.callSite? twoArrowsSource twoArrowsProgram t).isSome)
      (Language.typescript.contents twoArrowsSource twoArrowsProgram).calls := by
  refine ⟨by decide +kernel, calls_twoArrows, ?_⟩
  have hcalls := callers_in_declarators (l := .typescript) rfl wellNested_twoArrowsProgram
    boundValue_twoArrows
  have hfirst : (declarators twoArrowsAt).findSome? (boundFunction? twoArrowsSource {}) =
      some "a" := by decide +kernel
  refine hcalls.imp fun t call hcall ht hnonempty => ?_
  rw [← hfirst]
  exact (hcall ht hnonempty).1

/-- A call is not always made inside the declarator in which it stands. -/
theorem call_attributed_to_other_declarator :
    ¬ ∀ (l : Language) src root scope declaration declarator value, l.dialect = dialect →
      root.WellNested → BoundValue src root scope declaration declarator value →
      List.Forall₂
        (fun t call => t ∈ value.node.nodes → t.start < t.stop →
          CallerInValue (l.dialect.callers src root) declaration.node value.node
            (boundFunction? src scope declarator) t.start call.caller)
        (root.exposed.filter fun t => (l.callSite? src root t).isSome)
        (l.contents src root).calls := by
  intro h
  have hcalls := h .typescript _ _ _ _ _ _ rfl wellNested_twoArrowsProgram boundValue_twoArrows
  have hsites : (twoArrowsProgram.exposed.filter fun t =>
      (Language.typescript.callSite? twoArrowsSource twoArrowsProgram t).isSome) =
        [callFrom 16, callFrom 31] := rfl
  rw [hsites] at hcalls
  obtain ⟨first, rest, hfirst, -, hrest⟩ := List.map_eq_cons_iff.mp calls_twoArrows
  obtain ⟨second, rest, rfl, hsecond, hnil⟩ := List.map_eq_cons_iff.mp hrest
  rw [hfirst, List.map_eq_nil_iff.mp hnil] at hcalls
  obtain ⟨_, ⟨hcall, _⟩⟩ := List.forall₂_cons.mp hcalls |>.imp_right List.forall₂_cons.mp
  have hin : callFrom 31 ∈ (arrowFrom 25).nodes := mem_nodes_of_mem_children (by simp [arrowFrom])
  have hbound := (hcall hin (by decide)).bound (by decide +kernel) "b" (by decide +kernel)
  rw [hsecond] at hbound
  revert hbound
  decide

end TypeScript

end CodeOutline
