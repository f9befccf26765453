import CodeOutline.Dialect.Php
import CodeOutline.Proofs.Edges
import CodeOutline.Proofs.Enclosure
import CodeOutline.Proofs.Marks
import CodeOutline.Proofs.OneLine
import CodeOutline.Proofs.Ordering
import CodeOutline.Proofs.Pruning
import CodeOutline.Proofs.Targets

/-!
# Facts about PHP

All that is listed for a declaration stands in its scope and in the order of the source. Attributes
are looked for at any depth below an attribute list, also inside `ERROR` nodes; nothing else hangs
on what is below sealed nodes. So the dialect is blind once its marks are left out
(`blind_dialect`). Edges start at the type that lists its parents, or around a place that uses a
trait. Heads stand on one line.
-/

namespace CodeOutline.Php

open CodeOutline.Tree

variable {src : String}

/-! ## Scopes -/

section Scopes

variable {owners : List Owner} {scope : Scope} {c : Cursor}

theorem anchored_parents (child : String) (t : Tree) :
    Anchored src owners (parents src child t) := by
  refine .flatMap fun kind _ => ?_
  split
  · exact .nil
  · exact .inherits ..

theorem leads_of_typeBody? {body : Cursor}
    (h : ((c.field? "body").or (c.ofKind? "declaration_list")).or
      (c.ofKind? "enum_declaration_list") = some body) : c.node.Leads body.node := by
  rcases Option.or_eq_some_iff.mp h with h | ⟨_, henum⟩
  · rcases Option.or_eq_some_iff.mp h with hfield | ⟨_, hlist⟩
    · exact Cursor.leads_of_field? hfield
    · exact Cursor.leads_of_ofKind? hlist (by decide)
  · exact Cursor.leads_of_ofKind? henum (by decide)

theorem anchored_typeItems (howner : ⟨scope.path, c.node⟩ ∈ owners) :
    Anchored src owners (typeItems src scope c) := by
  unfold typeItems
  split
  · exact .nil
  · refine .declare howner rfl (self_mem_nodes _) (.append ?_ ?_)
    · exact anchored_parents ..
    · exact .within List.mem_cons_self rfl fun _ => leads_of_typeBody?

theorem anchored_traitItems (t : Tree) : Anchored src owners (traitItems src scope t) := by
  unfold traitItems
  split
  · exact .nil
  · exact .inherits ..

theorem anchored_routineItems (howner : ⟨scope.path, c.node⟩ ∈ owners) :
    Anchored src owners (routineItems src scope c) := by
  unfold routineItems
  split
  · exact .nil
  · refine .declare howner rfl (self_mem_nodes _) ?_
    exact .within List.mem_cons_self rfl fun _ => Cursor.leads_of_field?

theorem anchored_propertyItems (howner : ⟨scope.path, c.node⟩ ∈ owners) :
    Anchored src owners (propertyItems src scope c) := by
  unfold propertyItems
  split
  · exact .nil
  · refine .of_forall fun item hitem => ?_
    obtain ⟨element, _, hitem⟩ := List.mem_filterMap.mp hitem
    obtain ⟨name, _, rfl⟩ := Option.map_eq_some_iff.mp hitem
    exact .declare howner rfl (self_mem_nodes _) .nil

theorem anchored_constantItems (howner : ⟨scope.path, c.node⟩ ∈ owners) :
    Anchored src owners (constantItems src scope c) := by
  refine .of_forall fun item hitem => ?_
  obtain ⟨element, _, hitem⟩ := List.mem_filterMap.mp hitem
  obtain ⟨name, _, rfl⟩ := Option.map_eq_some_iff.mp hitem
  exact .declare howner rfl (self_mem_nodes _) .nil

theorem anchored_caseItems (howner : ⟨scope.path, c.node⟩ ∈ owners) :
    Anchored src owners (caseItems src scope c) := by
  refine .of_forall fun item hitem => ?_
  obtain ⟨name, _, rfl⟩ := List.mem_map.mp hitem
  exact .declare howner rfl (self_mem_nodes _) .nil

theorem anchored_namespaceItems (howner : ⟨scope.path, c.node⟩ ∈ owners) :
    Anchored src owners (namespaceItems src scope c) := by
  refine .append (.of_forall fun item hitem => ?_) ?_
  · obtain ⟨name, _, rfl⟩ := List.mem_map.mp hitem
    exact .found rfl .nil
  · exact .within howner rfl fun _ => Cursor.leads_of_field?

end Scopes

theorem anchored_rule : (rule src).Anchored src := by
  intro scope c hopen
  have howner := scope.mem_owners c
  unfold rule
  split
  · exact anchored_namespaceItems howner
  · exact .imports ..
  iterate 4 · exact anchored_typeItems howner
  iterate 2 · exact anchored_routineItems howner
  · exact anchored_propertyItems howner
  · exact anchored_constantItems howner
  · exact anchored_caseItems howner
  · split
    · exact anchored_traitItems _
    · exact .enter howner rfl (Leads.refl hopen) .nil
  · exact .enter howner rfl (Leads.refl hopen) .nil

/-! ## Source order -/

section Order

variable {scope : Scope} {c : Cursor}

theorem silent_parents (child : String) (t : Tree) : Silent (parents src child t) := by
  refine .flatMap fun kind => ?_
  split
  · exact .nil
  · exact .inherits _ _ _

theorem inOrder_typeItems (hwell : c.node.WellNested) :
    InOrder c.node.start c.node.stop (typeItems src scope c) := by
  unfold typeItems
  split
  · exact .nil hwell.start_le_stop
  · refine .declare (.silent_append (silent_parents _ _) ?_)
    exact .within hwell fun body hbody => (leads_of_typeBody? hbody).1

theorem silent_traitItems (t : Tree) : Silent (traitItems src scope t) := by
  unfold traitItems
  split
  · exact .nil
  · exact .inherits _ _ _

theorem inOrder_routineItems (hwell : c.node.WellNested) :
    InOrder c.node.start c.node.stop (routineItems src scope c) := by
  unfold routineItems
  split
  · exact .nil hwell.start_le_stop
  · exact .declare (.within_field hwell _ _)

theorem inOrder_propertyItems (hwell : c.node.WellNested) :
    InOrder c.node.start c.node.stop (propertyItems src scope c) := by
  unfold propertyItems
  split
  · exact .nil hwell.start_le_stop
  · exact .filterMap_map hwell.start_le_stop fun _ _ => Item.declaredBy_declare ..

theorem inOrder_constantItems (hwell : c.node.WellNested) :
    InOrder c.node.start c.node.stop (constantItems src scope c) := by
  exact .filterMap_map hwell.start_le_stop fun _ _ => Item.declaredBy_declare ..

theorem inOrder_caseItems (hwell : c.node.WellNested) :
    InOrder c.node.start c.node.stop (caseItems src scope c) := by
  exact .map hwell.start_le_stop fun _ => Item.declaredBy_declare ..

theorem inOrder_namespaceItems (hwell : c.node.WellNested) :
    InOrder c.node.start c.node.stop (namespaceItems src scope c) := by
  refine .silent_append (.packages _ _) ?_
  exact .within_field hwell _ _

end Order

theorem forward_rule : (rule src).Forward fun _ => True := by
  intro scope c hwell _
  have hle := hwell.start_le_stop
  unfold rule
  split
  · exact inOrder_namespaceItems hwell
  · exact .silent (.imports _ id) hle
  iterate 4 · exact inOrder_typeItems hwell
  iterate 2 · exact inOrder_routineItems hwell
  · exact inOrder_propertyItems hwell
  · exact inOrder_constantItems hwell
  · exact inOrder_caseItems hwell
  · split
    · exact .silent (silent_traitItems _) hle
    · exact .enter hle scope
  · exact .enter hle scope

/-! ## Edges

The traits that a class uses are named inside its body, so the edges to them start at the
declaration around the place. That is the one of a type as long as the scope says so. -/

section Edges

variable {T : String → Prop} {scope : Scope} {c : Cursor}

theorem edges_parents {child : String} (h : T child) (t : Tree) :
    EdgesFrom T (parents src child t) := by
  refine .flatMap fun kind _ => ?_
  split
  · exact .nil
  · exact .inherits h _ _

theorem isType_typeKind (kind : String) : (typeKind kind).isType = true := by
  unfold typeKind
  split <;> rfl

theorem grounded_typeItems : Grounded (·.isType = true) (typeItems src scope c) := by
  unfold typeItems
  split
  · exact .of_edgeless .nil
  · exact .declare (isType_typeKind _) (.append (edges_parents rfl _) (.within _ _))

theorem edges_traitItems (h : T scope.name) (t : Tree) : EdgesFrom T (traitItems src scope t) := by
  unfold traitItems
  split
  · exact .nil
  · exact .inherits h _ _

theorem rooted_typeItems :
    RootedAt (·.isType = true) (·.container = .type) scope (typeItems src scope c) := by
  refine ⟨grounded_typeItems.mono fun _ hname => .inl hname, ?_⟩
  unfold typeItems
  split
  · intro place inner hmem
    cases hmem
  · intro place inner hmem _
    rcases List.mem_cons.mp hmem with hdeclared | hmem
    · cases hdeclared
    · rcases List.mem_append.mp hmem with hparent | hbody
      · exact absurd hparent ((silent_parents _ _).enter_not_mem place inner)
      · rw [Item.eq_of_enter_mem_within hbody]
        exact .inl (declares_declare (isType_typeKind _) ..)

theorem rooted_traitItems (h : scope.container = .type) (t : Tree) :
    RootedAt (·.isType = true) (·.container = .type) scope (traitItems src scope t) where
  edges := edges_traitItems (.inr ⟨h, rfl⟩) t
  enters place inner hmem := absurd hmem ((silent_traitItems t).enter_not_mem place inner)

theorem rooted_routineItems :
    RootedAt (·.isType = true) (·.container = .type) scope (routineItems src scope c) := by
  unfold routineItems
  split
  · exact .of_declaredBy (by simp)
  · refine .of_edgeless (.declare (.within _ _)) fun place inner hmem htype => ?_
    rcases List.mem_cons.mp hmem with hdeclared | hbody
    · cases hdeclared
    · rw [Item.eq_of_enter_mem_within hbody] at htype
      cases htype

theorem declaredBy_of_mem_propertyItems {item : Item} (h : item ∈ propertyItems src scope c) :
    item.DeclaredBy c.node := by
  unfold propertyItems at h
  split at h
  · cases h
  · obtain ⟨element, _, hitem⟩ := List.mem_filterMap.mp h
    obtain ⟨name, _, rfl⟩ := Option.map_eq_some_iff.mp hitem
    exact Item.declaredBy_declare ..

theorem declaredBy_of_mem_constantItems {item : Item} (h : item ∈ constantItems src scope c) :
    item.DeclaredBy c.node := by
  obtain ⟨element, _, hitem⟩ := List.mem_filterMap.mp h
  obtain ⟨name, _, rfl⟩ := Option.map_eq_some_iff.mp hitem
  exact Item.declaredBy_declare ..

theorem declaredBy_of_mem_caseItems {item : Item} (h : item ∈ caseItems src scope c) :
    item.DeclaredBy c.node := by
  obtain ⟨name, _, rfl⟩ := List.mem_map.mp h
  exact Item.declaredBy_declare ..

theorem rooted_namespaceItems :
    RootedAt (·.isType = true) (·.container = .type) scope (namespaceItems src scope c) := by
  refine .of_edgeless (.append (.packages _ _) (.within _ _)) fun place inner hmem _ => ?_
  rcases List.mem_append.mp hmem with hpackage | hbody
  · exact absurd hpackage ((Silent.packages _ _).enter_not_mem place inner)
  · exact Item.eq_of_enter_mem_within hbody

end Edges

theorem rooted_rule : (rule src).Rooted (·.isType = true) (·.container = .type) := by
  intro scope c
  unfold rule
  split
  · exact rooted_namespaceItems
  · refine .of_edgeless (.imports _ id) fun place inner hmem => ?_
    exact absurd hmem ((Silent.imports _ id).enter_not_mem place inner)
  iterate 4 · exact rooted_typeItems
  iterate 2 · exact rooted_routineItems
  · exact .of_declaredBy fun item hitem => ⟨c.node, declaredBy_of_mem_propertyItems hitem⟩
  · exact .of_declaredBy fun item hitem => ⟨c.node, declaredBy_of_mem_constantItems hitem⟩
  · exact .of_declaredBy fun item hitem => ⟨c.node, declaredBy_of_mem_caseItems hitem⟩
  · split
    · next htype => exact rooted_traitItems htype _
    · exact .enter c
  · exact .enter c

/-! ## Heads -/

section Heads

variable {scope : Scope} {c : Cursor}

theorem oneLine_declaration (name : String) (kind : SymbolKind) (body : Option Tree) :
    (declaration src c scope name kind (signature src c.node body)).OneLine :=
  (oneLine_headline ..).dropTerminator _

theorem oneLine_typeItems : OneLineItems (typeItems src scope c) := by
  unfold typeItems
  split
  · exact .nil
  · exact .cons (oneLine_declaration ..) (.append (.silent (silent_parents _ _)) (.within _ _))

theorem oneLine_routineItems : OneLineItems (routineItems src scope c) := by
  unfold routineItems
  split
  · exact .nil
  · exact .cons (oneLine_declaration ..) (.within _ _)

/-- All properties of a declaration share the part of the head before the first of them. -/
theorem oneLine_propertyItems : OneLineItems (propertyItems src scope c) := by
  unfold propertyItems
  split
  · exact .nil
  · exact .filterMap_map fun _ _ => (oneLine_headlines ..).dropTerminator '='

theorem oneLine_constantItems : OneLineItems (constantItems src scope c) :=
  .filterMap_map fun _ _ => oneLine_declaration ..

theorem oneLine_caseItems : OneLineItems (caseItems src scope c) :=
  .map fun _ => oneLine_declaration ..

end Heads

theorem oneLine_rule : (rule src).OneLine fun _ => True := by
  intro scope c _
  unfold rule
  split
  · exact .append (.silent (.packages _ _)) (.within _ _)
  · exact .silent (.imports _ id)
  iterate 4 · exact oneLine_typeItems
  iterate 2 · exact oneLine_routineItems
  · exact oneLine_propertyItems
  · exact oneLine_constantItems
  · exact oneLine_caseItems
  · split
    · exact .silent (silent_traitItems _)
    · exact .enter c scope
  · exact .enter c scope

/-! ## Sealed nodes -/

theorem headStart_prune {t : Tree} (h : t.isSealed = false) : headStart t.prune = headStart t :=
  startAfter_prune h _

theorem signature_prune {t : Tree} (h : t.isSealed = false) (body : Option Tree) :
    signature src t.prune (body.map prune) = signature src t body := by
  simp [signature, headStart_prune h]

theorem signature_prune_none {t : Tree} (h : t.isSealed = false) :
    signature src t.prune none = signature src t none :=
  signature_prune h none

@[simp] theorem declaration_prune_withoutMarks (c : Cursor) (scope : Scope) (name : String)
    (kind : SymbolKind) (signature : String) :
    (declaration src c.prune scope name kind signature).withoutMarks =
      (declaration src c scope name kind signature).withoutMarks := by
  simp [declaration, Item.declare, Item.withoutMarks, Finding.withoutMarks,
    Declared.withoutMarks, Symbol.withoutMarks]

@[simp] theorem prune_declaration_withoutMarks (c : Cursor) (scope : Scope) (name : String)
    (kind : SymbolKind) (signature : String) :
    (declaration src c scope name kind signature).withoutMarks.prune =
      (declaration src c scope name kind signature).withoutMarks :=
  rfl

/-- What is found of parents is found as such, without marks and without places. -/
theorem map_parents {f : Item → Item} (hf : ∀ child parent,
    (Item.inherit child parent).map f = Item.inherit child parent) (child : String) (t : Tree) :
    (parents src child t).map f = parents src child t := by
  rw [parents, List.map_flatMap]
  refine List.flatMap_congr fun kind _ => ?_
  split
  · rfl
  · simp [List.map_flatMap, hf]

theorem parents_prune (child : String) {t : Tree} (h : t.isSealed = false) :
    parents src child t.prune = parents src child t := by
  rw [parents, parents]
  refine List.flatMap_congr fun kind _ => ?_
  rw [ofKind?_prune h]
  cases t.ofKind? kind with
  | none => rfl
  | some clause => simp

theorem typeItems_prune (scope : Scope) {c : Cursor} (h : c.node.isSealed = false) :
    (typeItems src scope c.prune).map Item.withoutMarks =
      ((typeItems src scope c).map Item.withoutMarks).map Item.prune := by
  simp only [typeItems, Cursor.node_prune, fieldText?_prune h]
  split
  · rfl
  · simp only [Cursor.field?_prune h, Cursor.ofKind?_prune h, ← Option.map_or,
      Cursor.map_node_map_prune, signature_prune h, kind_prune, List.map_cons, List.map_append,
      declaration_prune_withoutMarks, prune_declaration_withoutMarks, parents_prune _ h,
      map_parents Item.map_withoutMarks_inherit, map_parents Item.map_prune_inherit,
      Item.map_withoutMarks_within, Item.map_prune_within]

theorem traitItems_prune (scope : Scope) (t : Tree) :
    (traitItems src scope t.prune).map Item.withoutMarks =
      ((traitItems src scope t).map Item.withoutMarks).map Item.prune := by
  simp only [traitItems, text_prune]
  split
  · rfl
  · simp only [List.map_flatMap, Item.map_withoutMarks_inherit, Item.map_prune_inherit]

theorem routineItems_prune (scope : Scope) {c : Cursor} (h : c.node.isSealed = false) :
    (routineItems src scope c.prune).map Item.withoutMarks =
      ((routineItems src scope c).map Item.withoutMarks).map Item.prune := by
  simp only [routineItems, Cursor.node_prune, fieldText?_prune h]
  split
  · rfl
  · simp only [signature_prune h, field?_prune h, Cursor.field?_prune h, kind_prune,
      List.map_cons, declaration_prune_withoutMarks, prune_declaration_withoutMarks,
      Item.map_withoutMarks_within, Item.map_prune_within]

theorem propertySignature_prune (shared : String) {element : Tree}
    (h : element.isSealed = false) :
    propertySignature src shared element.prune = propertySignature src shared element := by
  simp [propertySignature, field?_prune h]

theorem propertyItems_prune (scope : Scope) {c : Cursor} (h : c.node.isSealed = false) :
    (propertyItems src scope c.prune).map Item.withoutMarks =
      ((propertyItems src scope c).map Item.withoutMarks).map Item.prune := by
  have hopen : ∀ t ∈ c.node.namedChildren.filter fun t => t.kind == "property_element",
      t.isSealed = false := fun t ht => isSealed_of_mem_filter_kind ht (by decide)
  simp only [propertyItems, Cursor.node_prune, namedChildren_prune h, List.filter_map,
    Function.comp_def, kind_prune]
  cases helements : c.node.namedChildren.filter fun t => t.kind == "property_element" with
  | nil => rfl
  | cons first rest =>
    rw [helements] at hopen
    have hmap : prune first :: rest.map prune = (first :: rest).map prune := rfl
    simp only [List.map_cons]
    rw [hmap, List.filterMap_map, List.map_filterMap, List.map_filterMap, List.map_filterMap]
    refine List.filterMap_congr fun element hmem => ?_
    have helement := hopen element hmem
    simp [field?_prune helement, ofKind?_prune helement, ← Option.map_or, headStart_prune h,
      propertySignature_prune _ helement, Function.comp_def]

theorem constantItems_prune (scope : Scope) {c : Cursor} (h : c.node.isSealed = false) :
    (constantItems src scope c.prune).map Item.withoutMarks =
      ((constantItems src scope c).map Item.withoutMarks).map Item.prune := by
  simp only [constantItems, Cursor.node_prune, namedChildren_prune h, List.filter_map,
    List.filterMap_map, List.map_filterMap, Function.comp_def, kind_prune,
    signature_prune_none h]
  refine List.filterMap_congr fun element hmem => ?_
  have hopen := isSealed_of_mem_filter_kind hmem (by decide)
  simp [field?_prune hopen, ofKind?_prune hopen, ← Option.map_or, Function.comp_def]

theorem caseItems_prune (scope : Scope) {c : Cursor} (h : c.node.isSealed = false) :
    (caseItems src scope c.prune).map Item.withoutMarks =
      ((caseItems src scope c).map Item.withoutMarks).map Item.prune := by
  simp [caseItems, fieldText?_prune h, signature_prune_none h, Function.comp_def]

theorem namespaceItems_prune (scope : Scope) {c : Cursor} (h : c.node.isSealed = false) :
    (namespaceItems src scope c.prune).map Item.withoutMarks =
      ((namespaceItems src scope c).map Item.withoutMarks).map Item.prune := by
  simp [namespaceItems, fieldText?_prune h, Cursor.field?_prune h, Function.comp_def]

theorem blind_rule : (rule src).withoutMarks.Blind := by
  intro scope c h
  simp only [Rule.withoutMarks, rule, Cursor.node_prune, kind_prune, text_prune]
  split
  · exact namespaceItems_prune scope h
  · simp
  iterate 4 · exact typeItems_prune scope h
  iterate 2 · exact routineItems_prune scope h
  · exact propertyItems_prune scope h
  · exact constantItems_prune scope h
  · exact caseItems_prune scope h
  · split
    · exact traitItems_prune scope c.node
    · rfl
  · rfl

@[simp] theorem isName_prune (t : Tree) : isName t.prune = isName t := by simp [isName]

theorem memberCall_prune (object name : Tree) (arguments : Nat) :
    memberCall src object.prune name.prune arguments = memberCall src object name arguments := by
  have hhead : ∀ s : Tree, isHead s.prune = isHead s := by simp [isHead]
  simp [memberCall, isChain_prune hhead]

theorem site?_prune (modules : List String) {t : Tree} (h : t.isError = false) :
    site? src modules t.prune = site? src modules t := by
  have hopen := isSealed_of_isError h
  have hlist := CallSite.countArguments_ofKind?_prune hopen (show "arguments" ≠ "ERROR" by decide)
  simp only [site?, kind_prune, CallSite.countArguments_field?_prune hopen, hlist,
    namedChildren_prune hopen, List.find?_map, Function.comp_def, Option.bind_eq_bind,
    Option.pure_def]
  split
  · simp [field?_prune hopen, Option.bind_map, functionCall, Function.comp_def]
  iterate 2 · simp [field?_prune hopen, Option.bind_map, memberCall_prune, Function.comp_def]
  · simp [field?_prune hopen, Option.bind_map, scopedCall, Function.comp_def]
  · simp [Option.bind_map, construction, Function.comp_def]
  · rfl

theorem blind_dialect : dialect.withoutMarks.Blind where
  docstring _ _ h := Comments.leadingBlockSummary_prune _ _ _ h
  rule _ := blind_rule
  isLocal _ := anchored_rule.isLocal.withoutMarks
  site? _ modules _ h := site?_prune modules h

/-! ## Targets of calls -/

/-- Whether a part of a construction is the class it names. -/
def isConstructed (t : Tree) : Bool := t.kind != "attribute_list" && t.kind != "arguments"

/-- The part of a call that names its target. -/
def namePart? (t : Tree) : Option Tree :=
  match t.kind with
  | "object_creation_expression" => t.namedChildren.find? isConstructed
  | _ => t.field? "function"

section Targets

variable {t target object name : Tree} {part : Option Tree} {arguments : Nat}

theorem describes_functionCall (htarget : target ∈ part) (hcounts : CallSite.Counts t arguments) :
    (functionCall src target arguments).Describes src t part := by
  unfold functionCall
  split
  · exact .direct (by simp) (fun hpart => (hpart target htarget).dropStart_ne_empty) hcounts
  · exact .dynamic hcounts

theorem describes_memberCall (hcounts : CallSite.Counts t arguments) :
    (memberCall src object name arguments).Describes src t part := by
  simp only [memberCall]
  split
  · refine .direct (by simp) (fun _ => ?_) hcounts
    exact Text.ne_empty_of_mem (c := '>') (by simp)
  · exact .dynamic hcounts

theorem describes_scopedCall (hcounts : CallSite.Counts t arguments) :
    (scopedCall src object name arguments).Describes src t part := by
  simp only [scopedCall]
  split
  · exact .dynamic hcounts
  · refine .direct ?_ (fun _ => Text.ne_empty_of_mem (c := ':') (by simp)) hcounts
    split <;> simp

theorem describes_construction (htarget : target ∈ part) (hcounts : CallSite.Counts t arguments) :
    (construction src target arguments).Describes src t part := by
  unfold construction
  split
  · exact .direct (by simp) (fun hpart => (hpart target htarget).dropStart_ne_empty) hcounts
  · split
    · exact .direct (by simp) (fun hpart => (hpart target htarget).ne_empty) hcounts
    · exact .dynamic hcounts

theorem describes_site (modules : List String) {site : CallSite}
    (h : site? src modules t = some site) : site.Describes src t (namePart? t) := by
  have hcounts := CallSite.counts_field? t "arguments"
  simp only [site?] at h
  split at h
  · next hkind =>
    obtain ⟨target, htarget, h⟩ := Option.bind_eq_some_iff.mp h
    cases h
    exact describes_functionCall (by simpa [namePart?, hkind] using htarget) hcounts
  · obtain ⟨object, _, h⟩ := Option.bind_eq_some_iff.mp h
    obtain ⟨name, _, h⟩ := Option.bind_eq_some_iff.mp h
    cases h
    exact describes_memberCall hcounts
  · obtain ⟨object, _, h⟩ := Option.bind_eq_some_iff.mp h
    obtain ⟨name, _, h⟩ := Option.bind_eq_some_iff.mp h
    cases h
    exact describes_memberCall hcounts
  · obtain ⟨scope, _, h⟩ := Option.bind_eq_some_iff.mp h
    obtain ⟨name, _, h⟩ := Option.bind_eq_some_iff.mp h
    cases h
    exact describes_scopedCall hcounts
  · next hkind =>
    obtain ⟨target, htarget, h⟩ := Option.bind_eq_some_iff.mp h
    cases h
    have hpart : target ∈ namePart? t := by
      simp only [namePart?, hkind]
      exact htarget
    exact describes_construction hpart (CallSite.counts_ofKind? t "arguments")
  · cases h

end Targets

end CodeOutline.Php
