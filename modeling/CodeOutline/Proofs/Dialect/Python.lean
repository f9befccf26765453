import CodeOutline.Dialect.Python
import CodeOutline.Proofs.Edges
import CodeOutline.Proofs.Enclosure
import CodeOutline.Proofs.OneLine
import CodeOutline.Proofs.Ordering
import CodeOutline.Proofs.Paths
import CodeOutline.Proofs.Pruning
import CodeOutline.Proofs.Targets

/-!
# Facts about Python

All that is listed for a definition stands in its scope and in the order of the source, and nothing
hangs on what is below sealed nodes. Edges to parents start at the class that lists them. Heads
stand on one line.
-/

namespace CodeOutline.Python

open CodeOutline.Tree

variable {src : String}

/-! ## Statements that declare -/

theorem eq_declare_of_assignment? {scope : Scope} {statement : Tree} {item : Item}
    (h : assignment? src scope statement = some item) :
    ∃ name kind start stop, item = Item.declare src statement scope name kind
      (dropTerminator '=' (headline src start stop)) := by
  simp only [assignment?, Option.bind_eq_bind, Option.bind_eq_some_iff, Option.pure_def,
    Option.some.injEq] at h
  obtain ⟨assignment, _, left, _, rfl⟩ := h
  exact ⟨_, _, _, _, rfl⟩

theorem eq_declare_of_typeAlias? {scope : Scope} {statement : Tree} {item : Item}
    (h : typeAlias? src scope statement = some item) :
    ∃ name, item = Item.declare src statement scope name .typeAlias
      (headline src statement.start statement.stop) := by
  simp only [typeAlias?, Option.bind_eq_bind, Option.bind_eq_some_iff, Option.pure_def,
    Option.some.injEq] at h
  obtain ⟨left, _, rfl⟩ := h
  exact ⟨_, rfl⟩

/-! ## Scopes -/

section Scopes

variable {owners : List Owner} {scope : Scope} {span definition : Cursor} {marks : List Mark}

theorem anchored_classItems (howner : ⟨scope.path, span.node⟩ ∈ owners)
    (hin : definition.node ∈ span.node.nodes) :
    Anchored src owners (classItems src scope span definition marks) := by
  unfold classItems
  split
  · exact .nil
  · refine .declare howner rfl (self_mem_nodes _) (.append (.inherits ..) ?_)
    refine .within List.mem_cons_self rfl fun body hbody => ?_
    exact (Cursor.leads_of_field? hbody).of_mem hin

theorem anchored_routineItems (howner : ⟨scope.path, span.node⟩ ∈ owners)
    (hin : definition.node ∈ span.node.nodes) :
    Anchored src owners (routineItems src scope span definition marks) := by
  unfold routineItems
  split
  · exact .nil
  · refine .declare howner rfl (self_mem_nodes _) ?_
    refine .within List.mem_cons_self rfl fun body hbody => ?_
    exact (Cursor.leads_of_field? hbody).of_mem hin

theorem anchored_definitionItems (howner : ⟨scope.path, span.node⟩ ∈ owners)
    (hin : definition.node ∈ span.node.nodes) :
    Anchored src owners (definitionItems src scope span definition marks) := by
  unfold definitionItems
  split
  · exact anchored_classItems howner hin
  · exact anchored_routineItems howner hin
  · exact .nil

theorem anchored_assignment? {statement : Tree} (howner : ⟨scope.path, statement⟩ ∈ owners) :
    Anchored src owners (assignment? src scope statement).toList := by
  refine .of_forall fun item hitem => ?_
  obtain ⟨name, kind, start, stop, rfl⟩ := eq_declare_of_assignment? (Option.mem_toList.mp hitem)
  exact .declare howner rfl (self_mem_nodes _) .nil

theorem anchored_typeAlias? {statement : Tree} (howner : ⟨scope.path, statement⟩ ∈ owners) :
    Anchored src owners (typeAlias? src scope statement).toList := by
  refine .of_forall fun item hitem => ?_
  obtain ⟨name, rfl⟩ := eq_declare_of_typeAlias? (Option.mem_toList.mp hitem)
  exact .declare howner rfl (self_mem_nodes _) .nil

theorem anchored_memberImports (statement : Tree) :
    Anchored src owners (memberImports src statement) := by
  simp only [memberImports]
  split
  · exact .nil
  · refine .append ?_ (.imports ..)
    split
    · exact .found rfl .nil
    · exact .nil

end Scopes

theorem anchored_rule : (rule src).Anchored src := by
  intro scope c hopen
  have howner := scope.mem_owners c
  have henter : Anchored src (scope.owners c) [.enter c scope] :=
    .enter howner rfl (Leads.refl hopen) .nil
  unfold rule
  split
  · exact .imports ..
  · exact anchored_memberImports _
  · exact anchored_memberImports _
  · exact anchored_definitionItems howner (self_mem_nodes _)
  · exact anchored_definitionItems howner (self_mem_nodes _)
  · cases hdefinition : c.field? "definition" with
    | none => exact .nil
    | some definition =>
      exact anchored_definitionItems howner (Cursor.leads_of_field? hdefinition).1
  · split
    · exact henter
    · exact anchored_assignment? howner
  · split
    · exact henter
    · exact anchored_typeAlias? howner
  · exact henter

/-! ## Source order -/

section Order

variable {scope : Scope} {span definition : Cursor} {marks : List Mark}

theorem inOrder_classItems (hwell : span.node.WellNested)
    (hin : definition.node ∈ span.node.nodes) :
    InOrder span.node.start span.node.stop (classItems src scope span definition marks) := by
  unfold classItems
  split
  · exact .nil hwell.start_le_stop
  · refine .declare (.silent_append (.inherits _ _ _) (.within hwell fun body hbody => ?_))
    exact mem_nodes_trans (Cursor.leads_of_field? hbody).1 hin

theorem inOrder_routineItems (hwell : span.node.WellNested)
    (hin : definition.node ∈ span.node.nodes) :
    InOrder span.node.start span.node.stop (routineItems src scope span definition marks) := by
  unfold routineItems
  split
  · exact .nil hwell.start_le_stop
  · refine .declare (.within hwell fun body hbody => ?_)
    exact mem_nodes_trans (Cursor.leads_of_field? hbody).1 hin

theorem inOrder_definitionItems (hwell : span.node.WellNested)
    (hin : definition.node ∈ span.node.nodes) :
    InOrder span.node.start span.node.stop (definitionItems src scope span definition marks) := by
  unfold definitionItems
  split
  · exact inOrder_classItems hwell hin
  · exact inOrder_routineItems hwell hin
  · exact .nil hwell.start_le_stop

theorem declaredBy_assignment? {statement : Tree} {item : Item}
    (h : assignment? src scope statement = some item) : item.DeclaredBy statement := by
  obtain ⟨name, kind, start, stop, rfl⟩ := eq_declare_of_assignment? h
  exact Item.declaredBy_declare ..

theorem declaredBy_typeAlias? {statement : Tree} {item : Item}
    (h : typeAlias? src scope statement = some item) : item.DeclaredBy statement := by
  obtain ⟨name, rfl⟩ := eq_declare_of_typeAlias? h
  exact Item.declaredBy_declare ..

theorem silent_memberImports (statement : Tree) : Silent (memberImports src statement) := by
  simp only [memberImports]
  split
  · exact .nil
  · refine .append ?_ (.imports _ _)
    split
    · exact .singleton rfl
    · exact .nil

end Order

theorem forward_rule : (rule src).Forward fun _ => True := by
  intro scope c hwell _
  have hle := hwell.start_le_stop
  unfold rule
  split
  · exact .silent (.imports _ _) hle
  iterate 2 · exact .silent (silent_memberImports _) hle
  iterate 2 · exact inOrder_definitionItems hwell (self_mem_nodes _)
  · cases hdefinition : c.field? "definition" with
    | none => exact .nil hle
    | some definition =>
      exact inOrder_definitionItems hwell (Cursor.leads_of_field? hdefinition).1
  · split
    · exact .enter hle scope
    · exact .of_declaredBy hle fun item hitem => declaredBy_assignment? (Option.mem_toList.mp hitem)
  · split
    · exact .enter hle scope
    · exact .of_declaredBy hle fun item hitem => declaredBy_typeAlias? (Option.mem_toList.mp hitem)
  · exact .enter hle scope

/-! ## Edges -/

section Edges

variable {T : String → Prop} {scope : Scope} {span definition : Cursor} {marks : List Mark}

theorem grounded_classItems :
    Grounded (·.isType = true) (classItems src scope span definition marks) := by
  unfold classItems
  split
  · exact .of_edgeless .nil
  · exact .declare rfl (.append (.inherits rfl _ _) (.within _ _))

theorem edges_routineItems : EdgesFrom T (routineItems src scope span definition marks) := by
  unfold routineItems
  split
  · exact .nil
  · exact .declare (.within _ _)

theorem grounded_definitionItems :
    Grounded (·.isType = true) (definitionItems src scope span definition marks) := by
  unfold definitionItems
  split
  · exact grounded_classItems
  · exact .of_edgeless edges_routineItems
  · exact .of_edgeless .nil

theorem edges_memberImports (statement : Tree) : EdgesFrom T (memberImports src statement) := by
  simp only [memberImports]
  split
  · exact .nil
  · refine .append ?_ (.imports _ _)
    split
    · exact .imported _
    · exact .nil

end Edges

theorem rooted_rule : (rule src).Rooted (·.isType = true) fun _ => False := by
  refine .of_grounded fun scope c => ?_
  unfold rule
  split
  · exact .of_edgeless (.imports _ _)
  iterate 2 · exact .of_edgeless (edges_memberImports _)
  iterate 2 · exact grounded_definitionItems
  · cases c.field? "definition" with
    | none => exact .of_edgeless .nil
    | some definition => exact grounded_definitionItems
  · split
    · exact .of_edgeless (.enter c scope)
    · refine .of_edgeless (.of_declaredBy fun item hitem => ⟨c.node, ?_⟩)
      exact declaredBy_assignment? (Option.mem_toList.mp hitem)
  · split
    · exact .of_edgeless (.enter c scope)
    · refine .of_edgeless (.of_declaredBy fun item hitem => ⟨c.node, ?_⟩)
      exact declaredBy_typeAlias? (Option.mem_toList.mp hitem)
  · exact .of_edgeless (.enter c scope)

/-! ## Heads -/

section Heads

variable {scope : Scope} {span definition : Cursor} {marks : List Mark}

theorem oneLine_signature (src : String) (t : Tree) : Text.OneLine (signature src t) :=
  (oneLine_headline ..).dropTerminator _

theorem oneLine_definitionItems :
    OneLineItems (definitionItems src scope span definition marks) := by
  unfold definitionItems
  split
  · unfold classItems
    split
    · exact .nil
    · exact .cons (oneLine_signature ..) (.append (.silent (.inherits _ _ _)) (.within _ _))
  · unfold routineItems
    split
    · exact .nil
    · exact .cons (oneLine_signature ..) (.within _ _)
  · exact .nil

theorem oneLine_assignment? {statement : Tree} {item : Item}
    (h : assignment? src scope statement = some item) : item.OneLine := by
  obtain ⟨name, kind, start, stop, rfl⟩ := eq_declare_of_assignment? h
  exact (oneLine_headline ..).dropTerminator _

theorem oneLine_typeAlias? {statement : Tree} {item : Item}
    (h : typeAlias? src scope statement = some item) : item.OneLine := by
  obtain ⟨name, rfl⟩ := eq_declare_of_typeAlias? h
  exact oneLine_headline ..

end Heads

theorem oneLine_rule : (rule src).OneLine fun _ => True := by
  intro scope c _
  unfold rule
  split
  · exact .silent (.imports _ _)
  iterate 2 · exact .silent (silent_memberImports _)
  iterate 2 · exact oneLine_definitionItems
  · cases c.field? "definition" with
    | none => exact .nil
    | some definition => exact oneLine_definitionItems
  · split
    · exact .enter c scope
    · exact fun item hitem => oneLine_assignment? (Option.mem_toList.mp hitem)
  · split
    · exact .enter c scope
    · exact fun item hitem => oneLine_typeAlias? (Option.mem_toList.mp hitem)
  · exact .enter c scope

/-! ## Sealed nodes -/

theorem docstring_prune {body : Tree} (h : body.isSealed = false) :
    docstring src body.prune = docstring src body := by
  simp only [docstring, namedChildren_prune h, List.find?_map, Function.comp_def, kind_prune]
  cases body.namedChildren.find? fun t => t.kind != "comment" with
  | none => rfl
  | some first =>
    simp only [Option.map_some, Option.bind_eq_bind, Option.bind_some, kind_prune]
    split
    · next hkind =>
      have hfirst := isSealed_of_kind (by simpa using hkind) (by decide)
      simp [firstNamed?_prune hfirst, Option.bind_map, Function.comp_def]
    · rfl

theorem marks_prune {t : Tree} (h : t.isSealed = false) : marks src t.prune = marks src t := by
  simp only [marks, children_prune h, List.filter_map, List.filterMap_map, Function.comp_def,
    kind_prune]
  refine List.filterMap_congr fun decorator hmem => ?_
  have hopen := isSealed_of_mem_filter_kind hmem (by decide)
  exact Mark.ofDecorator_prune src (by decide) hopen

theorem signature_prune {definition : Tree} (h : definition.isSealed = false) :
    signature src definition.prune = signature src definition := by
  simp [signature, field?_prune h]

theorem parents_prune (child : String) {definition : Tree} (h : definition.isSealed = false) :
    parents src child definition.prune = parents src child definition := by
  rw [parents, parents, field?_prune h]
  cases hbases : definition.field? "superclasses" with
  | none => rfl
  | some bases =>
    simp [namedChildren_prune (isSealed_of_field? hbases), List.filter_map, List.flatMap_map,
      Function.comp_def]

theorem map_prune_parents (child : String) (definition : Tree) :
    (parents src child definition).map Item.prune = parents src child definition := by
  simp [parents, List.map_flatMap]

theorem bodyDocstring_prune {definition : Cursor} (h : definition.node.isSealed = false) :
    ((definition.prune.field? "body").bind fun b => docstring src b.node) =
      (definition.field? "body").bind fun b => docstring src b.node := by
  rw [Cursor.field?_prune h]
  cases hbody : definition.field? "body" with
  | none => rfl
  | some body => exact docstring_prune (Cursor.leads_of_field? hbody).2

theorem classItems_prune (scope : Scope) (span : Cursor) {definition : Cursor}
    (h : definition.node.isSealed = false) (marks : List Mark) :
    classItems src scope span.prune definition.prune marks =
      (classItems src scope span definition marks).map Item.prune := by
  simp only [classItems, bodyDocstring_prune h, Cursor.node_prune, fieldText?_prune h]
  cases definition.node.fieldText? src "name" with
  | none => rfl
  | some name =>
    simp [signature_prune h, parents_prune _ h, map_prune_parents, Cursor.field?_prune h]

theorem routineItems_prune (scope : Scope) (span : Cursor) {definition : Cursor}
    (h : definition.node.isSealed = false) (marks : List Mark) :
    routineItems src scope span.prune definition.prune marks =
      (routineItems src scope span definition marks).map Item.prune := by
  simp only [routineItems, bodyDocstring_prune h, Cursor.node_prune, fieldText?_prune h]
  cases definition.node.fieldText? src "name" with
  | none => rfl
  | some name => simp [signature_prune h, Cursor.field?_prune h]

theorem definitionItems_prune (scope : Scope) (span : Cursor) {definition : Cursor}
    (h : definition.node.isSealed = false) (marks : List Mark) :
    definitionItems src scope span.prune definition.prune marks =
      (definitionItems src scope span definition marks).map Item.prune := by
  simp only [definitionItems, Cursor.node_prune, kind_prune]
  split
  · exact classItems_prune scope span h marks
  · exact routineItems_prune scope span h marks
  · rfl

theorem assignment?_prune (scope : Scope) {statement : Tree} (h : statement.isSealed = false) :
    assignment? src scope statement.prune = (assignment? src scope statement).map Item.prune := by
  simp only [assignment?, firstNamed?_prune h]
  cases statement.firstNamed? with
  | none => rfl
  | some assignment =>
    simp only [Option.map_some, Option.filter_some, kind_prune]
    split
    · next hkind =>
      have hopen := isSealed_of_kind (by simpa using hkind) (by decide)
      simp only [Option.bind_eq_bind, Option.bind_some, field?_prune hopen]
      cases assignment.field? "left" with
      | none => rfl
      | some left =>
        simp only [Option.map_some, Option.filter_some, kind_prune]
        split
        · simp [fieldText?_prune hopen]
        · rfl
    · rfl

theorem typeAlias?_prune (scope : Scope) {statement : Tree} (h : statement.isSealed = false) :
    typeAlias? src scope statement.prune = (typeAlias? src scope statement).map Item.prune := by
  simp only [typeAlias?, field?_prune h, firstNamed?_prune h, ← Option.map_or]
  cases (statement.field? "left").or statement.firstNamed? with
  | none => rfl
  | some left => simp

@[simp] theorem binding?_prune (part : Tree) : binding? src part.prune = binding? src part := by
  simp only [binding?, kind_prune, text_prune]
  split
  · next hkind =>
    have hopen := isSealed_of_kind (by simpa using hkind) (by decide)
    simp only [fieldText?_prune hopen]
  · rfl

theorem wholeImports_prune {statement : Tree} (h : statement.isSealed = false) :
    wholeImports src statement.prune = (wholeImports src statement).map Item.prune := by
  simp [wholeImports, fields_prune h, List.filterMap_map, Function.comp_def]

theorem memberImports_prune {statement : Tree} (h : statement.isSealed = false) :
    memberImports src statement.prune = (memberImports src statement).map Item.prune := by
  simp only [memberImports, kind_prune, fieldText?_prune h, hasKind_prune h, fields_prune h]
  split
  · rfl
  · simp only [List.map_append, List.filterMap_map, Function.comp_def, binding?_prune,
      List.map_map, Item.prune_imports]
    split <;> rfl

theorem blind_rule : (rule src).Blind := by
  intro scope c h
  simp only [rule, Cursor.node_prune, kind_prune]
  split
  · exact wholeImports_prune h
  · exact memberImports_prune h
  · exact memberImports_prune h
  · exact definitionItems_prune scope c h []
  · exact definitionItems_prune scope c h []
  · rw [Cursor.field?_prune h, marks_prune h]
    cases hdefinition : c.field? "definition" with
    | none => rfl
    | some definition =>
      exact definitionItems_prune scope c (Cursor.leads_of_field? hdefinition).2 _
  · split
    · rfl
    · rw [assignment?_prune scope h, Option.toList_map]
  · split
    · rfl
    · rw [typeAlias?_prune scope h, Option.toList_map]
  · rfl

theorem site?_prune (modules : List String) {t : Tree} (h : t.isError = false) :
    site? src modules t.prune = site? src modules t := by
  have hopen := isSealed_of_isError h
  simp only [site?, kind_prune, field?_prune hopen]
  split
  · cases htarget : t.field? "function" with
    | none => rfl
    | some target =>
      have htarget := isSealed_of_field? htarget
      have hhead : ∀ s : Tree, isHead src s.prune = isHead src s := by simp [isHead]
      have hcount := CallSite.countArguments_field?_prune hopen "arguments"
      rw [field?_prune hopen] at hcount
      simp [hcount, attributeCall, fieldText?_prune htarget, isChain_prune hhead]
  · rfl

theorem blind_dialect : dialect.Blind where
  docstring _ _ h := docstring_prune h
  rule _ := blind_rule
  isLocal _ := anchored_rule.isLocal
  site? _ modules _ h := site?_prune modules h

/-! ## Calls of paths -/

def attributePath : PathSyntax := ⟨"call", "attribute", "object", .dot⟩

/-- A path is called as it is written. -/
theorem site?_of_callsPath {c : Tree} {head : String} {members : List Member}
    (h : CallsPath attributePath src c head members) (modules : List String) :
    ∃ site, site? src modules c = some site ∧
      site.callee = some (head ++ Member.writtenAll "." members) := by
  obtain ⟨hcall, ⟨t, htarget, hspells⟩, hpicks⟩ := h
  have hkind : t.kind = "attribute" := hspells.kind_eq hpicks
  have hchain : t.isChain (isHead src) ["attribute"] "object" = true :=
    hspells.isChain fun s hs => by simp [isHead, hs]
  refine ⟨attributeCall src modules t (CallSite.countArguments (c.field? "arguments")), ?_, ?_⟩
  · simp [site?, hcall, attributePath, htarget, hkind, hchain]
  · exact congrArg some hspells.text_eq

/-! ## Targets of calls -/

/-- The part of a call that names its target. -/
def namePart? (t : Tree) : Option Tree := t.field? "function"

theorem describes_site (modules : List String) {t : Tree} {site : CallSite}
    (h : site? src modules t = some site) : site.Describes src t (namePart? t) := by
  have hcounts := CallSite.counts_field? t "arguments"
  unfold site? at h
  split at h
  · obtain ⟨target, htarget, rfl⟩ := Option.map_eq_some_iff.mp h
    have hnamed (hpart : ∀ s ∈ namePart? t, Text.HasName (s.text src)) : target.text src ≠ "" :=
      (hpart target htarget).ne_empty
    dsimp only
    split
    · refine .direct ?_ hnamed hcounts
      split <;> simp
    · split
      · refine .direct ?_ hnamed hcounts
        split
        · simp
        · exact CallSite.memberKind_ne_dynamic _ _
      · exact .dynamic hcounts
    · exact .dynamic hcounts
  · cases h

end CodeOutline.Python
