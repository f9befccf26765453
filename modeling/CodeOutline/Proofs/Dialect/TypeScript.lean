import CodeOutline.Dialect.TypeScript
import CodeOutline.Proofs.Edges
import CodeOutline.Proofs.Enclosure
import CodeOutline.Proofs.OneLine
import CodeOutline.Proofs.Ordering
import CodeOutline.Proofs.Paths
import CodeOutline.Proofs.Pruning
import CodeOutline.Proofs.Targets

/-!
# Facts about TypeScript and JavaScript

All that is listed for a declaration stands in its scope, and nothing hangs on what is below sealed
nodes. A variable bound to a function is declared by the whole declaration, and the function lies
inside it. What a declaration lists is in the order of the source if it has one declarator. Edges
to parents start at the class or interface that lists them. Heads stand on one line.
-/

namespace CodeOutline.TypeScript

open CodeOutline.Tree

variable {src : String}

/-! ## Members -/

theorem eq_declare_of_interfaceMember? {scope : Scope} {c : Cursor} {item : Item}
    (h : interfaceMember? src scope c = some item) :
    ∃ name kind, item = Item.declare src c.node scope name kind
      (Text.dropEnd [';', ','] (headline src c.node.start c.node.stop)) (docstring src c) := by
  simp only [interfaceMember?, Option.bind_eq_bind, Option.pure_def] at h
  split at h
  iterate 2
    · obtain ⟨kind, _, hname⟩ := Option.bind_eq_some_iff.mp h
      obtain ⟨name, _, hitem⟩ := Option.bind_eq_some_iff.mp hname
      exact ⟨name, kind, (Option.some.inj hitem).symm⟩
  · simp at h

theorem eq_declare_of_enumMember? {scope : Scope} {t : Tree} {item : Item}
    (h : enumMember? src scope t = some item) :
    ∃ name, item = Item.declare src t scope name .field (headline src t.start t.stop) := by
  simp only [enumMember?, Option.bind_eq_bind, Option.pure_def] at h
  split at h
  · obtain ⟨name, _, hitem⟩ := Option.bind_eq_some_iff.mp h
    exact ⟨_, (Option.some.inj hitem).symm⟩
  iterate 2 · exact ⟨_, (Option.some.inj h).symm⟩
  · simp at h

/-! ## Scopes -/

section Scopes

variable {owners : List Owner} {scope : Scope} {c : Cursor}

theorem anchored_classItems (howner : ⟨scope.path, c.node⟩ ∈ owners) :
    Anchored src owners (classItems src scope c) := by
  unfold classItems
  split
  · exact .nil
  · refine .declare howner rfl (self_mem_nodes _) (.append ?_ ?_)
    · exact .flatMap fun clause _ => .inherits ..
    · exact .within List.mem_cons_self rfl fun _ => Cursor.leads_of_field?

theorem anchored_interfaceMember? {t : Tree} (howner : ⟨scope.path, t⟩ ∈ owners)
    (hin : c.node ∈ t.nodes) {item : Item} (h : interfaceMember? src scope c = some item) :
    Anchored src owners [item] := by
  obtain ⟨name, kind, rfl⟩ := eq_declare_of_interfaceMember? h
  exact .declare howner rfl hin .nil

theorem anchored_interfaceItems (howner : ⟨scope.path, c.node⟩ ∈ owners) :
    Anchored src owners (interfaceItems src scope c) := by
  unfold interfaceItems
  split
  · exact .nil
  · refine .declare howner rfl (self_mem_nodes _) (.append ?_ (.of_forall fun item hitem => ?_))
    · exact .flatMap fun clause _ => .inherits ..
    · obtain ⟨m, hm, hitem⟩ := List.mem_filterMap.mp hitem
      cases hbody : c.field? "body" with
      | none => simp [hbody] at hm
      | some body =>
        simp only [hbody, Option.map_some, Option.getD_some] at hm
        exact anchored_interfaceMember? List.mem_cons_self (mem_nodes_trans
          (Cursor.mem_nodes_of_mem_namedChildren hm) (Cursor.leads_of_field? hbody).1) hitem

theorem anchored_enumMember? {t m : Tree} (howner : ⟨scope.path, t⟩ ∈ owners) (hin : m ∈ t.nodes)
    {item : Item} (h : enumMember? src scope m = some item) : Anchored src owners [item] := by
  obtain ⟨name, rfl⟩ := eq_declare_of_enumMember? h
  exact .declare howner rfl hin .nil

theorem anchored_enumItems (howner : ⟨scope.path, c.node⟩ ∈ owners) :
    Anchored src owners (enumItems src scope c) := by
  unfold enumItems
  split
  · exact .nil
  · refine .declare howner rfl (self_mem_nodes _) (.of_forall fun item hitem => ?_)
    obtain ⟨m, hm, hitem⟩ := List.mem_filterMap.mp hitem
    cases hbody : c.node.field? "body" with
    | none => simp [hbody] at hm
    | some body =>
      simp only [hbody, Option.map_some, Option.getD_some] at hm
      exact anchored_enumMember? List.mem_cons_self (mem_nodes_trans
        (mem_nodes_of_mem_namedChildren hm) (mem_nodes_of_field? hbody)) hitem

theorem anchored_typeAliasItems (howner : ⟨scope.path, c.node⟩ ∈ owners) :
    Anchored src owners (typeAliasItems src scope c) := by
  refine .of_forall fun item hitem => ?_
  obtain ⟨name, _, rfl⟩ := List.mem_map.mp hitem
  exact .declare howner rfl (self_mem_nodes _) .nil

theorem anchored_methodItems (howner : ⟨scope.path, c.node⟩ ∈ owners) :
    Anchored src owners (methodItems src scope c) := by
  unfold methodItems
  split
  · exact .nil
  · refine .declare howner rfl (self_mem_nodes _) ?_
    exact .within List.mem_cons_self rfl fun _ => Cursor.leads_of_field?

theorem anchored_fieldItems (howner : ⟨scope.path, c.node⟩ ∈ owners) :
    Anchored src owners (fieldItems src scope c) := by
  unfold fieldItems
  split
  · exact .nil
  · refine .declare howner rfl (self_mem_nodes _) ?_
    refine .within List.mem_cons_self rfl fun function hfunction => ?_
    exact Cursor.leads_of_field? (Option.filter_eq_some_iff.mp hfunction).1

theorem anchored_memberItems (hopen : c.node.isSealed = false)
    (howner : ⟨scope.path, c.node⟩ ∈ owners) :
    Anchored src owners (memberItems src scope c) := by
  unfold memberItems
  split
  iterate 3 · exact anchored_methodItems howner
  iterate 2 · exact anchored_fieldItems howner
  · exact .enter howner rfl (Leads.refl hopen) .nil
  · exact .nil

theorem anchored_functionItems (howner : ⟨scope.path, c.node⟩ ∈ owners) :
    Anchored src owners (functionItems src scope c) := by
  unfold functionItems
  split
  · exact .nil
  · refine .declare howner rfl (self_mem_nodes _) ?_
    exact .within List.mem_cons_self rfl fun _ => Cursor.leads_of_field?

theorem anchored_namespaceItems (howner : ⟨scope.path, c.node⟩ ∈ owners) :
    Anchored src owners (namespaceItems src scope c) := by
  unfold namespaceItems
  split
  · exact .nil
  · refine .declare howner rfl (self_mem_nodes _) ?_
    exact .within List.mem_cons_self rfl fun _ => Cursor.leads_of_field?

theorem anchored_variableItems {declarator : Cursor} {start : Nat} {name : String}
    (howner : ⟨scope.path, c.node⟩ ∈ owners) (hin : declarator.node ∈ c.node.nodes) :
    Anchored src owners (variableItems src scope c declarator start name) := by
  have hvalue : ∀ v, declarator.field? "value" = some v → c.node.Leads v.node :=
    fun v hv => (Cursor.leads_of_field? hv).of_mem hin
  simp only [variableItems]
  split
  · next function hfunction =>
    refine .declare howner rfl (self_mem_nodes _) (.enter List.mem_cons_self rfl ?_ .nil)
    exact hvalue function (Option.filter_eq_some_iff.mp hfunction).1
  · refine .append ?_ (.within howner rfl hvalue)
    split
    · exact .nil
    · exact .declare howner rfl (self_mem_nodes _) .nil

theorem anchored_declaratorItems {declarator : Cursor} {start : Nat}
    (howner : ⟨scope.path, c.node⟩ ∈ owners) (hin : declarator.node ∈ c.node.nodes) :
    Anchored src owners (declaratorItems src scope c declarator start) := by
  unfold declaratorItems
  split
  · exact .nil
  · split
    · exact .imports ..
    · split
      · exact anchored_variableItems howner hin
      · exact .nil

theorem anchored_declarationItems (howner : ⟨scope.path, c.node⟩ ∈ owners) :
    Anchored src owners (declarationItems src scope c) := by
  have hin : ∀ d ∈ c.namedChildren.filter fun d => d.node.kind == "variable_declarator",
      d.node ∈ c.node.nodes := fun d hd =>
    Cursor.mem_nodes_of_mem_namedChildren (List.mem_filter.mp hd).1
  unfold declarationItems
  split
  · exact .nil
  · next first rest hdeclarators =>
    rw [hdeclarators] at hin
    refine .append ?_ (.flatMap fun d hd => ?_)
    · exact anchored_declaratorItems howner (hin first List.mem_cons_self)
    · exact anchored_declaratorItems howner (hin d (List.mem_cons_of_mem _ hd))

theorem anchored_statementItems (hopen : c.node.isSealed = false)
    (howner : ⟨scope.path, c.node⟩ ∈ owners) :
    Anchored src owners (statementItems src scope c) := by
  have henter : Anchored src owners [.enter c scope] := .enter howner rfl (Leads.refl hopen) .nil
  unfold statementItems
  split
  · exact .imports ..
  · split
    · exact .imports ..
    · exact henter
  iterate 2 · exact anchored_classItems howner
  · exact anchored_interfaceItems howner
  · exact anchored_enumItems howner
  · exact anchored_typeAliasItems howner
  iterate 2 · exact anchored_functionItems howner
  iterate 2 · exact anchored_declarationItems howner
  iterate 2 · exact anchored_namespaceItems howner
  · exact henter

end Scopes

theorem anchored_rule : (rule src).Anchored src := by
  intro scope c hopen
  have howner := scope.mem_owners c
  unfold rule
  split
  · exact anchored_memberItems hopen howner
  · exact anchored_statementItems hopen howner

/-! ## Source order -/

/-- A declaration of variables declares one at most. What a second one covers begins with the whole
declaration, and so before the value of the first. -/
def SingleDeclarator (t : Tree) : Prop :=
  t.kind ∈ ["lexical_declaration", "variable_declaration"] →
    (t.namedChildren.filter fun d => d.kind == "variable_declarator").length ≤ 1

instance (t : Tree) : Decidable (SingleDeclarator t) :=
  inferInstanceAs (Decidable (_ → _))

section Order

variable {scope : Scope} {c : Cursor}

theorem silent_inheritClause (child : String) (clause : Tree) :
    Silent (inheritClause src child clause) :=
  .inherits _ _ _

theorem inOrder_classItems (hwell : c.node.WellNested) :
    InOrder c.node.start c.node.stop (classItems src scope c) := by
  unfold classItems
  split
  · exact .nil hwell.start_le_stop
  · refine .declare (.silent_append ?_ (.within_field hwell _ _))
    exact .flatMap (silent_inheritClause _)

theorem declaredBy_interfaceMember? {item : Item}
    (h : interfaceMember? src scope c = some item) : item.DeclaredBy c.node := by
  obtain ⟨name, kind, rfl⟩ := eq_declare_of_interfaceMember? h
  exact Item.declaredBy_declare ..

theorem inOrder_interfaceItems (hwell : c.node.WellNested) :
    InOrder c.node.start c.node.stop (interfaceItems src scope c) := by
  unfold interfaceItems
  split
  · exact .nil hwell.start_le_stop
  · refine .declare (.silent_append ?_ ?_)
    · exact .flatMap (silent_inheritClause _)
    · refine .members hwell (fun b hb => ?_) fun m item => declaredBy_interfaceMember?
      exact (Cursor.leads_of_field? hb).1

theorem declaredBy_enumMember? {m : Tree} {item : Item} (h : enumMember? src scope m = some item) :
    item.DeclaredBy m := by
  obtain ⟨name, rfl⟩ := eq_declare_of_enumMember? h
  exact Item.declaredBy_declare ..

theorem inOrder_enumItems (hwell : c.node.WellNested) :
    InOrder c.node.start c.node.stop (enumItems src scope c) := by
  unfold enumItems
  split
  · exact .nil hwell.start_le_stop
  · refine .declare ?_
    cases hbody : c.node.field? "body" with
    | none => exact .nil hwell.start_le_stop
    | some body =>
      have hin := mem_nodes_of_field? hbody
      have hmembers := (hwell.of_mem hin).ascending_namedChildren
      exact .of_mem hwell hin (.filterMap hmembers fun m _ item => declaredBy_enumMember?)

theorem inOrder_typeAliasItems (hwell : c.node.WellNested) :
    InOrder c.node.start c.node.stop (typeAliasItems src scope c) := by
  exact .map hwell.start_le_stop fun _ => Item.declaredBy_declare ..

theorem inOrder_methodItems (hwell : c.node.WellNested) :
    InOrder c.node.start c.node.stop (methodItems src scope c) := by
  unfold methodItems
  split
  · exact .nil hwell.start_le_stop
  · exact .declare (.within_field hwell _ _)

theorem inOrder_fieldItems (hwell : c.node.WellNested) :
    InOrder c.node.start c.node.stop (fieldItems src scope c) := by
  unfold fieldItems
  split
  · exact .nil hwell.start_le_stop
  · refine .declare (.within hwell fun function hfunction => ?_)
    exact (Cursor.leads_of_field? (Option.filter_eq_some_iff.mp hfunction).1).1

theorem inOrder_memberItems (hwell : c.node.WellNested) :
    InOrder c.node.start c.node.stop (memberItems src scope c) := by
  unfold memberItems
  split
  iterate 3 · exact inOrder_methodItems hwell
  iterate 2 · exact inOrder_fieldItems hwell
  · exact .enter hwell.start_le_stop _
  · exact .nil hwell.start_le_stop

theorem inOrder_functionItems (hwell : c.node.WellNested) :
    InOrder c.node.start c.node.stop (functionItems src scope c) := by
  unfold functionItems
  split
  · exact .nil hwell.start_le_stop
  · exact .declare (.within_field hwell _ _)

theorem inOrder_namespaceItems (hwell : c.node.WellNested) :
    InOrder c.node.start c.node.stop (namespaceItems src scope c) := by
  unfold namespaceItems
  split
  · exact .nil hwell.start_le_stop
  · exact .declare (.within_field hwell _ _)

theorem inOrder_variableItems {declarator : Cursor} {start : Nat} {name : String}
    (hwell : c.node.WellNested) (hin : declarator.node ∈ c.node.nodes) :
    InOrder c.node.start c.node.stop (variableItems src scope c declarator start name) := by
  have hvalue : ∀ v, declarator.field? "value" = some v → v.node ∈ c.node.nodes :=
    fun v hv => mem_nodes_trans (Cursor.leads_of_field? hv).1 hin
  simp only [variableItems]
  split
  · next function hfunction =>
    have hfunctionIn := hvalue function (Option.filter_eq_some_iff.mp hfunction).1
    have hle := (hwell.of_mem hfunctionIn).start_le_stop
    exact .declare (.of_mem hwell hfunctionIn (.enter hle _))
  · split
    · exact .within hwell hvalue
    · exact .declare (.within hwell hvalue)

theorem inOrder_declaratorItems {declarator : Cursor} {start : Nat}
    (hwell : c.node.WellNested) (hin : declarator.node ∈ c.node.nodes) :
    InOrder c.node.start c.node.stop (declaratorItems src scope c declarator start) := by
  unfold declaratorItems
  split
  · exact .nil hwell.start_le_stop
  · split
    · exact .silent (.imports _ id) hwell.start_le_stop
    · split
      · exact inOrder_variableItems hwell hin
      · exact .nil hwell.start_le_stop

theorem inOrder_declarationItems (hwell : c.node.WellNested)
    (hkind : c.node.kind ∈ ["lexical_declaration", "variable_declaration"])
    (hsingle : SingleDeclarator c.node) :
    InOrder c.node.start c.node.stop (declarationItems src scope c) := by
  have hlength := hsingle hkind
  rw [← Cursor.map_node_namedChildren, List.filter_map, List.length_map] at hlength
  unfold declarationItems
  split
  · exact .nil hwell.start_le_stop
  · next first rest hdeclarators =>
    have hfirst : first ∈ c.namedChildren := by
      refine List.mem_of_mem_filter (p := fun d => d.node.kind == "variable_declarator") ?_
      rw [hdeclarators]
      exact List.mem_cons_self
    have hrest : rest = [] := by
      have hone : (first :: rest).length ≤ 1 := hdeclarators ▸ hlength
      exact List.length_eq_zero_iff.mp (by simpa using hone)
    rw [hrest, List.flatMap_nil, List.append_nil]
    exact inOrder_declaratorItems hwell (Cursor.mem_nodes_of_mem_namedChildren hfirst)

theorem inOrder_statementItems (hwell : c.node.WellNested) (hsingle : SingleDeclarator c.node) :
    InOrder c.node.start c.node.stop (statementItems src scope c) := by
  have hle := hwell.start_le_stop
  unfold statementItems
  split
  · exact .silent (.imports _ id) hle
  · split
    · exact .silent (.imports _ id) hle
    · exact .enter hle scope
  iterate 2 · exact inOrder_classItems hwell
  · exact inOrder_interfaceItems hwell
  · exact inOrder_enumItems hwell
  · exact inOrder_typeAliasItems hwell
  iterate 2 · exact inOrder_functionItems hwell
  iterate 2 · next hkind => exact inOrder_declarationItems hwell (by simp [hkind]) hsingle
  iterate 2 · exact inOrder_namespaceItems hwell
  · exact .enter hle scope

end Order

theorem forward_rule : (rule src).Forward SingleDeclarator := by
  intro scope c hwell hsingle
  unfold rule
  split
  · exact inOrder_memberItems hwell
  · exact inOrder_statementItems hwell hsingle

/-! ## Edges -/

section Edges

variable {T : String → Prop} {scope : Scope} {c : Cursor}

theorem edges_inheritClauses {child : String} (h : T child) (clauses : List Tree) :
    EdgesFrom T (clauses.flatMap (inheritClause src child)) :=
  .flatMap fun _ _ => .inherits h _ _

theorem grounded_classItems : Grounded (·.isType = true) (classItems src scope c) := by
  unfold classItems
  split
  · exact .of_edgeless .nil
  · exact .declare rfl (.append (edges_inheritClauses rfl _) (.within _ _))

theorem grounded_interfaceItems : Grounded (·.isType = true) (interfaceItems src scope c) := by
  unfold interfaceItems
  split
  · exact .of_edgeless .nil
  · refine .declare rfl (.append (edges_inheritClauses rfl _) (.filterMap fun m item hitem => ?_))
    exact ⟨m.node, declaredBy_interfaceMember? hitem⟩

theorem edges_enumItems : EdgesFrom T (enumItems src scope c) := by
  unfold enumItems
  split
  · exact .nil
  · exact .declare (.filterMap fun m item hitem => ⟨m, declaredBy_enumMember? hitem⟩)

theorem edges_typeAliasItems : EdgesFrom T (typeAliasItems src scope c) :=
  .map fun _ => ⟨c.node, Item.declaredBy_declare ..⟩

theorem edges_methodItems : EdgesFrom T (methodItems src scope c) := by
  unfold methodItems
  split
  · exact .nil
  · exact .declare (.within _ _)

theorem edges_fieldItems : EdgesFrom T (fieldItems src scope c) := by
  unfold fieldItems
  split
  · exact .nil
  · exact .declare (.within _ _)

theorem edges_memberItems : EdgesFrom T (memberItems src scope c) := by
  unfold memberItems
  split
  iterate 3 · exact edges_methodItems
  iterate 2 · exact edges_fieldItems
  · exact .enter c _
  · exact .nil

theorem edges_functionItems : EdgesFrom T (functionItems src scope c) := by
  unfold functionItems
  split
  · exact .nil
  · exact .declare (.within _ _)

theorem edges_namespaceItems : EdgesFrom T (namespaceItems src scope c) := by
  unfold namespaceItems
  split
  · exact .nil
  · exact .declare (.within _ _)

theorem edges_variableItems (declarator : Cursor) (start : Nat) (name : String) :
    EdgesFrom T (variableItems src scope c declarator start name) := by
  simp only [variableItems]
  split
  · exact .declare (.enter _ _)
  · split
    · exact .within _ _
    · exact .declare (.within _ _)

theorem edges_declaratorItems (declarator : Cursor) (start : Nat) :
    EdgesFrom T (declaratorItems src scope c declarator start) := by
  unfold declaratorItems
  split
  · exact .nil
  · split
    · exact .imports _ id
    · split
      · exact edges_variableItems _ _ _
      · exact .nil

theorem edges_declarationItems : EdgesFrom T (declarationItems src scope c) := by
  unfold declarationItems
  split
  · exact .nil
  · exact .append (edges_declaratorItems _ _) (.flatMap fun d _ => edges_declaratorItems d _)

theorem grounded_statementItems : Grounded (·.isType = true) (statementItems src scope c) := by
  unfold statementItems
  split
  · exact .of_edgeless (.imports _ id)
  · split
    · exact .of_edgeless (.imports _ id)
    · exact .of_edgeless (.enter c scope)
  iterate 2 · exact grounded_classItems
  · exact grounded_interfaceItems
  · exact .of_edgeless edges_enumItems
  · exact .of_edgeless edges_typeAliasItems
  iterate 2 · exact .of_edgeless edges_functionItems
  iterate 2 · exact .of_edgeless edges_declarationItems
  iterate 2 · exact .of_edgeless edges_namespaceItems
  · exact .of_edgeless (.enter c scope)

end Edges

theorem rooted_rule : (rule src).Rooted (·.isType = true) fun _ => False := by
  refine .of_grounded fun scope c => ?_
  unfold rule
  split
  · exact .of_edgeless edges_memberItems
  · exact grounded_statementItems

/-! ## Heads -/

section Heads

variable {scope : Scope} {c declaration declarator : Cursor}

theorem oneLine_signature (src : String) (c : Cursor) (body : Option Tree) :
    Text.OneLine (signature src c body) :=
  (oneLine_headline ..).dropTerminator _

theorem oneLine_dropBinding (src : String) (start stop : Nat) :
    Text.OneLine (dropBinding (headline src start stop)) :=
  ((oneLine_headline ..).dropEnd _).dropTerminator _

theorem oneLine_interfaceMember? {item : Item} (h : interfaceMember? src scope c = some item) :
    item.OneLine := by
  obtain ⟨name, kind, rfl⟩ := eq_declare_of_interfaceMember? h
  exact (oneLine_headline ..).dropEnd _

theorem oneLine_enumMember? {t : Tree} {item : Item} (h : enumMember? src scope t = some item) :
    item.OneLine := by
  obtain ⟨name, rfl⟩ := eq_declare_of_enumMember? h
  exact oneLine_headline ..

theorem oneLine_inheritClauses (child : String) (clauses : List Tree) :
    OneLineItems (clauses.flatMap (inheritClause src child)) :=
  .flatMap fun _ => .silent (silent_inheritClause _ _)

theorem oneLine_classItems : OneLineItems (classItems src scope c) := by
  simp only [classItems]
  split
  · exact .nil
  · exact .cons (oneLine_signature ..) (.append (oneLine_inheritClauses _ _) (.within _ _))

theorem oneLine_interfaceItems : OneLineItems (interfaceItems src scope c) := by
  unfold interfaceItems
  split
  · exact .nil
  · refine .cons (oneLine_signature ..) (.append (oneLine_inheritClauses _ _) ?_)
    exact .filterMap fun _ _ => oneLine_interfaceMember?

theorem oneLine_enumItems : OneLineItems (enumItems src scope c) := by
  unfold enumItems
  split
  · exact .nil
  · exact .cons (oneLine_signature ..) (.filterMap fun _ _ => oneLine_enumMember?)

theorem oneLine_memberItems : OneLineItems (memberItems src scope c) := by
  unfold memberItems
  split
  iterate 3
    · unfold methodItems
      split
      · exact .nil
      · exact .cons (oneLine_signature ..) (.within _ _)
  iterate 2
    · unfold fieldItems
      split
      · exact .nil
      · exact .cons (oneLine_dropBinding ..) (.within _ _)
  · exact .enter c _
  · exact .nil

theorem oneLine_functionItems : OneLineItems (functionItems src scope c) := by
  unfold functionItems
  split
  · exact .nil
  · exact .cons (oneLine_signature ..) (.within _ _)

theorem oneLine_namespaceItems : OneLineItems (namespaceItems src scope c) := by
  unfold namespaceItems
  split
  · exact .nil
  · exact .cons (oneLine_signature ..) (.within _ _)

theorem oneLine_variableItems {start : Nat} {name : String} :
    OneLineItems (variableItems src scope declaration declarator start name) := by
  simp only [variableItems]
  split
  · exact .cons (oneLine_headline ..) (.enter _ _)
  · refine .append ?_ (.within _ _)
    split
    · exact .nil
    · exact .cons (oneLine_dropBinding ..) .nil

theorem oneLine_declaratorItems {start : Nat} :
    OneLineItems (declaratorItems src scope declaration declarator start) := by
  unfold declaratorItems
  split
  · exact .nil
  · split
    · exact .silent (.imports _ id)
    · split
      · exact oneLine_variableItems
      · exact .nil

theorem oneLine_declarationItems : OneLineItems (declarationItems src scope c) := by
  unfold declarationItems
  split
  · exact .nil
  · exact .append oneLine_declaratorItems (.flatMap fun _ => oneLine_declaratorItems)

theorem oneLine_statementItems : OneLineItems (statementItems src scope c) := by
  unfold statementItems
  split
  · exact .silent (.imports _ id)
  · split
    · exact .silent (.imports _ id)
    · exact .enter c scope
  iterate 2 · exact oneLine_classItems
  · exact oneLine_interfaceItems
  · exact oneLine_enumItems
  · exact .map fun _ => oneLine_signature ..
  iterate 2 · exact oneLine_functionItems
  iterate 2 · exact oneLine_declarationItems
  iterate 2 · exact oneLine_namespaceItems
  · exact .enter c scope

end Heads

theorem oneLine_rule : (rule src).OneLine fun _ => True := by
  intro scope c _
  unfold rule
  split
  · exact oneLine_memberItems
  · exact oneLine_statementItems

/-! ## Sealed nodes -/

@[simp] theorem export?_prune (c : Cursor) : export? c.prune = (export? c).map Cursor.prune := by
  simp [export?, Option.filter_map, Function.comp_def]

theorem isSealed_of_export? {c p : Cursor} (h : export? c = some p) : p.node.isSealed = false := by
  have hkind := (Option.filter_eq_some_iff.mp h).2
  exact isSealed_of_kind (by simpa using hkind) (by decide)

theorem headStart_prune {c : Cursor} (h : c.node.isSealed = false) :
    headStart c.prune = headStart c := by
  rw [headStart, headStart, export?_prune]
  cases hexport : export? c with
  | none => exact startAfter_prune h _
  | some p => exact startAfter_prune (isSealed_of_export? hexport) _

theorem signature_prune {c : Cursor} (h : c.node.isSealed = false) (body : Option Tree) :
    signature src c.prune (body.map prune) = signature src c body := by
  simp [signature, headStart_prune h]

theorem signature_prune_none {c : Cursor} (h : c.node.isSealed = false) :
    signature src c.prune none = signature src c none :=
  signature_prune h none

@[simp] theorem docstring_prune (c : Cursor) : docstring src c.prune = docstring src c := by
  simp only [docstring, export?_prune, Option.getD_map]
  exact Comments.blockSummary_prune ..

theorem decorators_prune {c : Cursor} (h : c.node.isSealed = false) :
    decorators c.prune = (decorators c).map prune := by
  have hkind : isDecorator ∘ prune = isDecorator := by funext t; simp [isDecorator]
  have hown : ∀ {t : Tree}, t.isSealed = false →
      t.prune.children.filter isDecorator = (t.children.filter isDecorator).map prune := by
    intro t ht
    rw [children_prune ht, List.filter_map, hkind]
  simp only [decorators, Cursor.before_prune, List.takeWhile_map, hkind, export?_prune,
    Cursor.node_prune, List.map_append, List.map_reverse, List.flatMap_append]
  cases hexport : export? c with
  | none => simp [hown h]
  | some p => simp [hown h, hown (isSealed_of_export? hexport)]

theorem isSealed_of_mem_decorators {c : Cursor} {t : Tree} (h : t ∈ decorators c) :
    t.isSealed = false := by
  have hkind : isDecorator t = true := by
    rcases List.mem_append.mp h with hbefore | hheld
    · exact List.all_eq_true.mp List.all_takeWhile t (List.mem_reverse.mp hbefore)
    · obtain ⟨holder, _, hmem⟩ := List.mem_flatMap.mp hheld
      exact (List.mem_filter.mp hmem).2
  exact isSealed_of_kind (by simpa [isDecorator] using hkind) (by decide)

theorem marks_prune {c : Cursor} (h : c.node.isSealed = false) :
    marks src c.prune = marks src c := by
  rw [marks, marks, decorators_prune h, List.filterMap_map]
  refine List.filterMap_congr fun t ht => ?_
  exact Mark.ofDecorator_prune src (by decide) (isSealed_of_mem_decorators ht)

@[simp] theorem inheritClause_prune (child : String) (clause : Tree) :
    inheritClause src child clause.prune = inheritClause src child clause := by
  simp [inheritClause]

@[simp] theorem map_prune_inheritClause (child : String) (clause : Tree) :
    (inheritClause src child clause).map Item.prune = inheritClause src child clause := by
  simp [inheritClause, List.map_flatMap]

theorem heritageClauses_prune {t : Tree} (h : t.isSealed = false) :
    heritageClauses t.prune = (heritageClauses t).map prune := by
  simp only [heritageClauses, children_prune h, List.filter_map, Function.comp_def, kind_prune]
  cases t.children.filter fun s => s.kind == "extends_clause" || s.kind == "implements_clause" with
  | nil => rfl
  | cons clause clauses => rfl

theorem classItems_prune (scope : Scope) {c : Cursor} (h : c.node.isSealed = false) :
    classItems src scope c.prune = (classItems src scope c).map Item.prune := by
  simp only [classItems, Cursor.node_prune, fieldText?_prune h]
  split
  · rfl
  · simp only [signature_prune h, marks_prune h, field?_prune h, Cursor.field?_prune h,
      ofKind?_prune h, docstring_prune, Item.declare_prune, List.map_cons, Item.prune_declare,
      List.map_append, Item.map_prune_within, List.map_flatMap, map_prune_inheritClause]
    cases hheritage : c.node.ofKind? "class_heritage" with
    | none => rfl
    | some heritage =>
      have hopen := isSealed_of_ofKind? hheritage (by decide)
      simp [heritageClauses_prune hopen, List.flatMap_map]

theorem interfaceMember?_prune (scope : Scope) (c : Cursor) :
    interfaceMember? src scope c.prune = (interfaceMember? src scope c).map Item.prune := by
  simp only [interfaceMember?, Cursor.node_prune, kind_prune]
  split
  iterate 2
    · next hkind =>
      simp [fieldText?_prune (isSealed_of_kind hkind (by decide)), Option.map_bind,
        Function.comp_def]
  · rfl

theorem interfaceItems_prune (scope : Scope) {c : Cursor} (h : c.node.isSealed = false) :
    interfaceItems src scope c.prune = (interfaceItems src scope c).map Item.prune := by
  simp only [interfaceItems, Cursor.node_prune, fieldText?_prune h]
  split
  · rfl
  · simp only [signature_prune h, field?_prune h, Cursor.field?_prune h, ofKind?_prune h,
      docstring_prune, Item.declare_prune, List.map_cons, Item.prune_declare, List.map_append,
      List.map_flatMap, map_prune_inheritClause, Option.toList_map, List.flatMap_map,
      inheritClause_prune]
    cases hbody : c.field? "body" with
    | none => rfl
    | some body =>
      have hopen := (Cursor.leads_of_field? hbody).2
      simp [Cursor.namedChildren_prune hopen, List.filterMap_map, List.map_filterMap,
        interfaceMember?_prune]

theorem enumMember?_prune (scope : Scope) (t : Tree) :
    enumMember? src scope t.prune = (enumMember? src scope t).map Item.prune := by
  simp only [enumMember?, kind_prune]
  split
  · next hkind =>
    simp [fieldText?_prune (isSealed_of_kind hkind (by decide)), Option.map_bind,
      Function.comp_def]
  iterate 2 · simp
  · rfl

theorem enumItems_prune (scope : Scope) {c : Cursor} (h : c.node.isSealed = false) :
    enumItems src scope c.prune = (enumItems src scope c).map Item.prune := by
  simp only [enumItems, Cursor.node_prune, fieldText?_prune h]
  split
  · rfl
  · simp only [signature_prune h, field?_prune h, docstring_prune, Item.declare_prune,
      List.map_cons, Item.prune_declare]
    cases hbody : c.node.field? "body" with
    | none => rfl
    | some body =>
      simp [namedChildren_prune (isSealed_of_field? hbody), List.filterMap_map,
        List.map_filterMap, enumMember?_prune]

theorem typeAliasItems_prune (scope : Scope) {c : Cursor} (h : c.node.isSealed = false) :
    typeAliasItems src scope c.prune = (typeAliasItems src scope c).map Item.prune := by
  simp [typeAliasItems, fieldText?_prune h, signature_prune_none h, Function.comp_def]

theorem methodItems_prune (scope : Scope) {c : Cursor} (h : c.node.isSealed = false) :
    methodItems src scope c.prune = (methodItems src scope c).map Item.prune := by
  simp only [methodItems, Cursor.node_prune, fieldText?_prune h]
  split
  · rfl
  · simp [methodKind, hasKind_prune h, signature_prune h, marks_prune h, field?_prune h,
      Cursor.field?_prune h]

theorem functionHeadStop_prune {t : Tree} (h : t.isSealed = false) :
    functionHeadStop t.prune = functionHeadStop t := by
  simp [functionHeadStop, field?_prune h]

@[simp] theorem isFunction_prune (t : Tree) : isFunction t.prune = isFunction t := by
  simp [isFunction]

theorem fieldItems_prune (scope : Scope) {c : Cursor} (h : c.node.isSealed = false) :
    fieldItems src scope c.prune = (fieldItems src scope c).map Item.prune := by
  simp only [fieldItems, Cursor.node_prune, fieldText?_prune h]
  split
  · rfl
  · simp only [Cursor.field?_prune h, Option.filter_map, Function.comp_def, Cursor.node_prune,
      isFunction_prune, field?_prune h, stopBefore_prune, startAfter_prune h, docstring_prune,
      marks_prune h, Item.declare_prune, Option.isSome_map]
    cases hfunction : (c.field? "value").filter fun v => isFunction v.node with
    | none => rfl
    | some function =>
      have hopen := (Cursor.leads_of_field? (Option.filter_eq_some_iff.mp hfunction).1).2
      simp [functionHeadStop_prune hopen]

theorem memberItems_prune (scope : Scope) {c : Cursor} (h : c.node.isSealed = false) :
    memberItems src scope c.prune = (memberItems src scope c).map Item.prune := by
  simp only [memberItems, Cursor.node_prune, kind_prune]
  split
  iterate 3 · exact methodItems_prune scope h
  iterate 2 · exact fieldItems_prune scope h
  iterate 2 · rfl

theorem functionItems_prune (scope : Scope) {c : Cursor} (h : c.node.isSealed = false) :
    functionItems src scope c.prune = (functionItems src scope c).map Item.prune := by
  simp only [functionItems, Cursor.node_prune, fieldText?_prune h]
  split
  · rfl
  · simp [signature_prune h, field?_prune h, Cursor.field?_prune h]

theorem namespaceItems_prune (scope : Scope) {c : Cursor} (h : c.node.isSealed = false) :
    namespaceItems src scope c.prune = (namespaceItems src scope c).map Item.prune := by
  simp only [namespaceItems, Cursor.node_prune, fieldText?_prune h]
  split
  · rfl
  · simp [signature_prune h, field?_prune h, Cursor.field?_prune h]

theorem requiredPath?_prune (value : Tree) :
    requiredPath? src value.prune = requiredPath? src value := by
  simp only [requiredPath?, kind_prune, beq_iff_eq]
  split
  · next hkind =>
    have hopen := isSealed_of_kind hkind (by decide)
    rw [fieldText?_prune hopen, field?_prune hopen]
    refine Option.bind_congr fun function _ => ?_
    split
    · simp only [Option.bind_eq_bind, Option.bind_map]
      refine Option.bind_congr fun arguments harguments => ?_
      simp [firstNamed?_prune (isSealed_of_field? harguments), Option.bind_map, Function.comp_def]
    · rfl
  · rfl

theorem patternImport?_prune (path : String) (part : Tree) :
    patternImport? src path part.prune = patternImport? src path part := by
  simp only [patternImport?, kind_prune, text_prune]
  split
  · rfl
  · next hkind => simp only [fieldText?_prune (isSealed_of_kind hkind (by decide))]
  · rfl

theorem requireImports_prune (path : String) (pattern : Tree) :
    requireImports src path pattern.prune = requireImports src path pattern := by
  simp only [requireImports, kind_prune, text_prune]
  split
  · rfl
  · next hkind =>
    rw [namedChildren_prune (isSealed_of_kind hkind (by decide)), List.filterMap_map]
    exact List.filterMap_congr fun part _ => patternImport?_prune path part
  · rfl

theorem variableItems_prune (scope : Scope) (declaration : Cursor) {declarator : Cursor}
    (h : declarator.node.isSealed = false) (start : Nat) (name : String) :
    variableItems src scope declaration.prune declarator.prune start name =
      (variableItems src scope declaration declarator start name).map Item.prune := by
  simp only [variableItems, Cursor.field?_prune h, Option.filter_map, Function.comp_def,
    Cursor.node_prune, isFunction_prune, docstring_prune, Item.declare_prune]
  cases hfunction : (declarator.field? "value").filter fun v => isFunction v.node with
  | none =>
    have hstop : declarator.node.prune.stopBefore
        (((declarator.field? "value").map Cursor.prune).map (·.node)) =
          declarator.node.stopBefore ((declarator.field? "value").map (·.node)) := by
      rw [← stopBefore_prune declarator.node, Option.map_map, Option.map_map]
      rfl
    simp only [Option.map_none, hstop, List.map_append, Item.map_prune_within]
    split <;> rfl
  | some function =>
    have hopen := (Cursor.leads_of_field? (Option.filter_eq_some_iff.mp hfunction).1).2
    simp [functionHeadStop_prune hopen]

theorem declaratorItems_prune (scope : Scope) (declaration : Cursor) {declarator : Cursor}
    (h : declarator.node.isSealed = false) (start : Nat) :
    declaratorItems src scope declaration.prune declarator.prune start =
      (declaratorItems src scope declaration declarator start).map Item.prune := by
  have hpath : (declarator.node.prune.field? "value").bind (requiredPath? src) =
      (declarator.node.field? "value").bind (requiredPath? src) := by
    rw [field?_prune h]
    cases declarator.node.field? "value" with
    | none => rfl
    | some value => exact requiredPath?_prune value
  simp only [declaratorItems, Cursor.node_prune, field?_prune h "name", hpath]
  cases declarator.node.field? "name" with
  | none => rfl
  | some pattern =>
    simp only [Option.map_some, requireImports_prune, kind_prune, text_prune,
      variableItems_prune scope declaration h]
    split
    · simp
    · split <;> rfl

theorem declarationItems_prune (scope : Scope) {c : Cursor} (h : c.node.isSealed = false) :
    declarationItems src scope c.prune = (declarationItems src scope c).map Item.prune := by
  have hopen : ∀ d ∈ c.namedChildren.filter fun d => d.node.kind == "variable_declarator",
      d.node.isSealed = false := fun d hd =>
    isSealed_of_kind (by simpa using (List.mem_filter.mp hd).2) (by decide)
  simp only [declarationItems, Cursor.namedChildren_prune h, List.filter_map, Function.comp_def,
    Cursor.node_prune, kind_prune]
  cases hdeclarators : c.namedChildren.filter fun d => d.node.kind == "variable_declarator" with
  | nil => rfl
  | cons first rest =>
    rw [hdeclarators] at hopen
    simp only [List.map_cons, List.map_append, headStart_prune h, List.flatMap_map,
      List.map_flatMap, Cursor.node_prune, start_prune,
      declaratorItems_prune scope c (hopen first List.mem_cons_self)]
    refine congrArg _ (List.flatMap_congr fun d hd => ?_)
    exact declaratorItems_prune scope c (hopen d (List.mem_cons_of_mem _ hd)) d.node.start

theorem specifierImport?_prune (path : String) {kind : String} (hk : kind ≠ "ERROR")
    (specifier : Tree) :
    specifierImport? src path kind specifier.prune = specifierImport? src path kind specifier := by
  simp only [specifierImport?, kind_prune, beq_iff_eq]
  split
  · next hkind => simp only [fieldText?_prune (isSealed_of_kind hkind hk)]
  · rfl

theorem specifierImports_prune (path : String) {kind : String} (hk : kind ≠ "ERROR") {t : Tree}
    (h : t.isSealed = false) :
    t.prune.namedChildren.filterMap (specifierImport? src path kind) =
      t.namedChildren.filterMap (specifierImport? src path kind) := by
  rw [namedChildren_prune h, List.filterMap_map]
  exact List.filterMap_congr fun specifier _ => specifierImport?_prune path hk specifier

theorem clauseImports_prune (path : String) (part : Tree) :
    clauseImports src path part.prune = clauseImports src path part := by
  simp only [clauseImports, kind_prune, text_prune]
  split
  · rfl
  · next hkind =>
    simp [ofKind?_prune (isSealed_of_kind hkind (by decide)), Option.toList_map]
  · next hkind =>
    exact specifierImports_prune path (by decide) (isSealed_of_kind hkind (by decide))
  · rfl

theorem requireClauseImport?_prune {clause : Tree} (h : clause.isSealed = false) :
    requireClauseImport? src clause.prune = requireClauseImport? src clause := by
  simp [requireClauseImport?, firstNamed?_prune h, fieldText?_prune h, Option.filter_map,
    Option.bind_map, Function.comp_def]

theorem statementImports_prune {t : Tree} (h : t.isSealed = false) :
    statementImports src t.prune = statementImports src t := by
  simp only [statementImports, ofKind?_prune h, fieldText?_prune h]
  cases hrequire : t.ofKind? "import_require_clause" with
  | some clause =>
    simp [requireClauseImport?_prune (isSealed_of_ofKind? hrequire (by decide))]
  | none =>
    simp only [Option.map_none]
    split
    · rfl
    · cases hclause : t.ofKind? "import_clause" with
      | none => rfl
      | some clause =>
        have hopen := isSealed_of_ofKind? hclause (by decide)
        simp [namedChildren_prune hopen, List.flatMap_map, clauseImports_prune]

theorem exportImports_prune (path : String) {t : Tree} (h : t.isSealed = false) :
    exportImports src path t.prune = exportImports src path t := by
  simp only [exportImports, ofKind?_prune h]
  cases hclause : t.ofKind? "export_clause" with
  | some clause =>
    exact specifierImports_prune path (by decide) (isSealed_of_ofKind? hclause (by decide))
  | none =>
    cases hspace : t.ofKind? "namespace_export" with
    | none => rfl
    | some space =>
      simp [firstNamed?_prune (isSealed_of_ofKind? hspace (by decide)), Function.comp_def]

theorem statementItems_prune (scope : Scope) {c : Cursor} (h : c.node.isSealed = false) :
    statementItems src scope c.prune = (statementItems src scope c).map Item.prune := by
  simp only [statementItems, Cursor.node_prune, kind_prune]
  split
  · simp [statementImports_prune h]
  · rw [fieldText?_prune h]
    split
    · simp [exportImports_prune _ h]
    · rfl
  iterate 2 · exact classItems_prune scope h
  · exact interfaceItems_prune scope h
  · exact enumItems_prune scope h
  · exact typeAliasItems_prune scope h
  iterate 2 · exact functionItems_prune scope h
  iterate 2 · exact declarationItems_prune scope h
  iterate 2 · exact namespaceItems_prune scope h
  · rfl

theorem blind_rule : (rule src).Blind := by
  intro scope c h
  unfold rule
  split
  · exact memberItems_prune scope h
  · exact statementItems_prune scope h

theorem isPath_prune (t : Tree) : isPath t.prune = isPath t := by
  have hhead : ∀ s : Tree, isHead s.prune = isHead s := by simp [isHead]
  exact isChain_prune hhead (by decide) "object" t

theorem callOf_prune (target : Tree) (arguments : Nat) :
    callOf src target.prune arguments = callOf src target arguments := by
  simp only [callOf, kind_prune, text_prune, isPath_prune]
  split
  iterate 3 · rfl
  · next hkind => rw [fieldText?_prune (isSealed_of_kind hkind (by decide))]
  · rfl

theorem site?_prune (modules : List String) {t : Tree} (h : t.isError = false) :
    site? src modules t.prune = site? src modules t := by
  have hopen := isSealed_of_isError h
  simp only [site?, kind_prune, CallSite.countArguments_field?_prune hopen,
    field?_prune hopen "function", field?_prune hopen "constructor", Option.map_map,
    Function.comp_def, callOf_prune, constructionOf, isPath_prune, text_prune]

theorem blind_dialect : dialect.Blind where
  docstring _ _ h := Comments.leadingBlockSummary_prune _ _ _ h
  rule _ := blind_rule
  isLocal _ := anchored_rule.isLocal
  site? _ modules _ h := site?_prune modules h

/-! ## Calls of paths -/

def memberPath : PathSyntax := ⟨"call_expression", "member_expression", "object", .dot⟩

/-- A path is called as it is written. -/
theorem site?_of_callsPath {c : Tree} {head : String} {members : List Member}
    (h : CallsPath memberPath src c head members) (modules : List String) :
    ∃ site, site? src modules c = some site ∧
      site.callee = some (head ++ Member.writtenAll "." members) := by
  obtain ⟨hcall, ⟨t, htarget, hspells⟩, hpicks⟩ := h
  have hkind : t.kind = "member_expression" := hspells.kind_eq hpicks
  have hpath : isPath t = true := hspells.isChain fun s hs => by simp [isHead, hs]
  refine ⟨callOf src t (CallSite.countArguments (c.field? "arguments")), ?_, ?_⟩
  · simp [site?, hcall, memberPath, htarget]
  · simp [callOf, hkind, hpath, CallSite.direct, hspells.text_eq, PathSyntax.separator,
      memberPath, Separator.text]

/-! ## Targets of calls -/

/-- The part of a call that names its target. -/
def namePart? (t : Tree) : Option Tree :=
  match t.kind with
  | "new_expression" => t.field? "constructor"
  | _ => t.field? "function"

section Targets

variable {t target : Tree} {part : Option Tree} {arguments : Nat}

theorem describes_callOf (htarget : target ∈ part) (hcounts : CallSite.Counts t arguments) :
    (callOf src target arguments).Describes src t part := by
  have hnamed (hpart : ∀ s ∈ part, Text.HasName (s.text src)) : target.text src ≠ "" :=
    (hpart target htarget).ne_empty
  simp only [callOf]
  split
  · exact .direct (by simp) hnamed hcounts
  · exact .direct (by simp) hnamed hcounts
  · exact .direct (by simp) (fun _ => by simp) hcounts
  · split
    · exact .direct (CallSite.memberKind_ne_dynamic _ _) hnamed hcounts
    · exact .dynamic hcounts
  · exact .dynamic hcounts

theorem describes_constructionOf (htarget : target ∈ part)
    (hcounts : CallSite.Counts t arguments) :
    (constructionOf src target arguments).Describes src t part := by
  unfold constructionOf
  split
  · refine .direct (by simp) (fun hpart => ?_) hcounts
    exact (hpart target htarget).dropTypeArguments_ne_empty
  · exact .dynamic hcounts

theorem describes_site (modules : List String) {site : CallSite}
    (h : site? src modules t = some site) : site.Describes src t (namePart? t) := by
  have hcounts := CallSite.counts_field? t "arguments"
  simp only [site?] at h
  split at h
  · next hkind =>
    obtain ⟨target, htarget, rfl⟩ := Option.map_eq_some_iff.mp h
    exact describes_callOf (by simpa [namePart?, hkind] using htarget) hcounts
  · next hkind =>
    obtain ⟨target, htarget, rfl⟩ := Option.map_eq_some_iff.mp h
    exact describes_constructionOf (by simpa [namePart?, hkind] using htarget) hcounts
  · cases h

end Targets

end CodeOutline.TypeScript
