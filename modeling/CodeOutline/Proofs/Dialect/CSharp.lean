import CodeOutline.Dialect.CSharp
import CodeOutline.Proofs.Edges
import CodeOutline.Proofs.Enclosure
import CodeOutline.Proofs.OneLine
import CodeOutline.Proofs.Ordering
import CodeOutline.Proofs.Paths
import CodeOutline.Proofs.Pruning
import CodeOutline.Proofs.Targets

/-!
# Facts about C#

All that is listed for a declaration stands in its scope, and nothing hangs on what is below sealed
nodes. A namespace opens no scope of its own: what is in it stands in the scope around it. The
properties that the parameters of a type are come before its members, so the order is that of the
source if the parameters precede the body. Edges to parents start at the type that lists them. Heads
stand on one line.
-/

namespace CodeOutline.CSharp

open CodeOutline.Tree

variable {src : String}

/-! ## Scopes -/

section Scopes

variable {owners : List Owner} {scope : Scope}

theorem anchored_parents (child : String) (t : Tree) :
    Anchored src owners (parents src child t) := by
  unfold parents
  split
  · exact .nil
  · exact .inherits ..

theorem anchored_parameterItems {t : Tree} (howner : ⟨scope.path, t⟩ ∈ owners) :
    Anchored src owners (parameterItems src scope t) := by
  refine .of_forall fun item hitem => ?_
  simp only [parameterItems] at hitem
  obtain ⟨p, hp, hitem⟩ := List.mem_filterMap.mp hitem
  obtain ⟨name, _, rfl⟩ := Option.map_eq_some_iff.mp hitem
  have hmem := (List.mem_filter.mp hp).1
  refine .declare howner rfl ?_ .nil
  cases hparameters : t.ofKind? "parameter_list" with
  | none => simp [hparameters] at hmem
  | some parameters =>
    simp only [hparameters, Option.map_some, Option.getD_some] at hmem
    exact mem_nodes_trans (mem_nodes_of_mem_namedChildren hmem) (mem_nodes_of_ofKind? hparameters)

variable {c : Cursor}

theorem anchored_typeItems (howner : ⟨scope.path, c.node⟩ ∈ owners) :
    Anchored src owners (typeItems src scope c) := by
  unfold typeItems
  split
  · exact .nil
  · refine .declare howner rfl (self_mem_nodes _) (.append (.append ?_ ?_) ?_)
    · exact anchored_parents ..
    · exact anchored_parameterItems List.mem_cons_self
    · exact .within List.mem_cons_self rfl fun _ => Cursor.leads_of_field?

theorem leads_of_body? {body : Cursor}
    (h : (c.field? "body").or (c.ofKind? "arrow_expression_clause") = some body) :
    c.node.Leads body.node := by
  rcases Option.or_eq_some_iff.mp h with hfield | ⟨_, hkind⟩
  · exact Cursor.leads_of_field? hfield
  · exact Cursor.leads_of_ofKind? hkind (by decide)

theorem anchored_routineItems (howner : ⟨scope.path, c.node⟩ ∈ owners) :
    Anchored src owners (routineItems src scope c) := by
  unfold routineItems
  split
  · exact .nil
  · refine .declare howner rfl (self_mem_nodes _) ?_
    exact .within List.mem_cons_self rfl fun _ => leads_of_body?

theorem anchored_propertyItems (howner : ⟨scope.path, c.node⟩ ∈ owners) :
    Anchored src owners (propertyItems src scope c) := by
  refine .of_forall fun item hitem => ?_
  obtain ⟨name, _, rfl⟩ := List.mem_map.mp hitem
  exact .declare howner rfl (self_mem_nodes _) .nil

theorem anchored_fieldItems (howner : ⟨scope.path, c.node⟩ ∈ owners) :
    Anchored src owners (fieldItems src scope c) := by
  unfold fieldItems
  split
  · exact .nil
  · refine .of_forall fun item hitem => ?_
    obtain ⟨declarator, _, hitem⟩ := List.mem_filterMap.mp hitem
    obtain ⟨name, _, rfl⟩ := Option.map_eq_some_iff.mp hitem
    exact .declare howner rfl (self_mem_nodes _) .nil

theorem anchored_namedItems (howner : ⟨scope.path, c.node⟩ ∈ owners) (kind : SymbolKind) :
    Anchored src owners (namedItems src scope kind c) := by
  refine .of_forall fun item hitem => ?_
  obtain ⟨name, _, rfl⟩ := List.mem_map.mp hitem
  exact .declare howner rfl (self_mem_nodes _) .nil

theorem anchored_namespaceItems (hopen : c.node.isSealed = false)
    (howner : ⟨scope.path, c.node⟩ ∈ owners) :
    Anchored src owners (namespaceItems src scope c) := by
  refine .append (.of_forall fun item hitem => ?_) ?_
  · obtain ⟨name, _, rfl⟩ := List.mem_map.mp hitem
    exact .found rfl .nil
  · exact .enter howner rfl (Leads.refl hopen) .nil

end Scopes

theorem anchored_rule : (rule src).Anchored src := by
  intro scope c hopen
  have howner := scope.mem_owners c
  unfold rule
  split
  · refine .of_forall fun item hitem => ?_
    obtain ⟨i, _, rfl⟩ := Option.map_eq_some_iff.mp (Option.mem_toList.mp hitem)
    exact .found rfl .nil
  iterate 2 · exact anchored_namespaceItems hopen howner
  iterate 6 · exact anchored_typeItems howner
  · exact anchored_namedItems howner _
  iterate 3 · exact anchored_routineItems howner
  iterate 2 · exact anchored_propertyItems howner
  iterate 2 · exact anchored_fieldItems howner
  · exact anchored_namedItems howner _
  · exact .enter howner rfl (Leads.refl hopen) .nil

/-! ## Source order -/

/-- The kinds of nodes that declare a type with members. -/
def typeNodes : List String :=
  ["class_declaration", "struct_declaration", "interface_declaration", "enum_declaration",
    "record_declaration", "record_struct_declaration"]

/-- The parameters of a type precede its body. -/
def ParametersFirst (t : Tree) : Prop :=
  t.kind ∈ typeNodes →
    ∀ p ∈ t.ofKind? "parameter_list", ∀ b ∈ t.field? "body", p.stop ≤ b.start

instance (t : Tree) : Decidable (ParametersFirst t) :=
  inferInstanceAs (Decidable (_ → _))

section Order

variable {scope : Scope}

theorem silent_parents (child : String) (t : Tree) : Silent (parents src child t) := by
  unfold parents
  split
  · exact .nil
  · exact .inherits _ _ _

variable {c : Cursor}

theorem inOrder_typeItems (hwell : c.node.WellNested) (hkind : c.node.kind ∈ typeNodes)
    (hfirst : ParametersFirst c.node) :
    InOrder c.node.start c.node.stop (typeItems src scope c) := by
  unfold typeItems
  split
  · exact .nil hwell.start_le_stop
  · refine .declare ?_
    rw [List.append_assoc]
    refine .silent_append (silent_parents _ _) (.parameters_append_within hwell ?_ ?_ ?_ ?_)
    · exact fun p hp => mem_nodes_of_ofKind? hp
    · exact fun b hb => (Cursor.leads_of_field? hb).1
    · intro p hp b hb
      refine hfirst hkind p hp b.node ?_
      rw [← Cursor.map_node_field?]
      exact Option.mem_map_of_mem _ hb
    · intro p item hitem
      obtain ⟨name, _, rfl⟩ := Option.map_eq_some_iff.mp hitem
      exact Item.declaredBy_declare ..

theorem inOrder_routineItems (hwell : c.node.WellNested) :
    InOrder c.node.start c.node.stop (routineItems src scope c) := by
  unfold routineItems
  split
  · exact .nil hwell.start_le_stop
  · exact .declare (.within hwell fun body hbody => (leads_of_body? hbody).1)

theorem inOrder_propertyItems (hwell : c.node.WellNested) :
    InOrder c.node.start c.node.stop (propertyItems src scope c) := by
  exact .map hwell.start_le_stop fun _ => Item.declaredBy_declare ..

theorem inOrder_fieldItems (hwell : c.node.WellNested) :
    InOrder c.node.start c.node.stop (fieldItems src scope c) := by
  unfold fieldItems
  split
  · exact .nil hwell.start_le_stop
  · exact .filterMap_map hwell.start_le_stop fun _ _ => Item.declaredBy_declare ..

theorem inOrder_namedItems (hwell : c.node.WellNested) (kind : SymbolKind) :
    InOrder c.node.start c.node.stop (namedItems src scope kind c) := by
  exact .map hwell.start_le_stop fun _ => Item.declaredBy_declare ..

end Order

theorem forward_rule : (rule src).Forward ParametersFirst := by
  intro scope c hwell hfirst
  have hle := hwell.start_le_stop
  have htype : ∀ {kind}, c.node.kind = kind → kind ∈ typeNodes →
      InOrder c.node.start c.node.stop (typeItems src scope c) := fun hkind hmem =>
    inOrder_typeItems hwell (hkind ▸ hmem) hfirst
  unfold rule
  split
  · rw [Option.toList_map]
    exact .silent (.imports _ id) hle
  iterate 2 · exact .silent_append (.packages _ _) (.enter hle scope)
  iterate 6 · next hkind => exact htype hkind (by decide)
  · exact inOrder_namedItems hwell _
  iterate 3 · exact inOrder_routineItems hwell
  iterate 2 · exact inOrder_propertyItems hwell
  iterate 2 · exact inOrder_fieldItems hwell
  · exact inOrder_namedItems hwell _
  · exact .enter hle scope

/-! ## Edges -/

section Edges

variable {T : String → Prop} {scope : Scope} {c : Cursor}

theorem edges_parents {child : String} (h : T child) (t : Tree) :
    EdgesFrom T (parents src child t) := by
  unfold parents
  split
  · exact .nil
  · exact .inherits h _ _

theorem edges_parameterItems (t : Tree) : EdgesFrom T (parameterItems src scope t) :=
  .filterMap_map fun p _ => ⟨p, Item.declaredBy_declare ..⟩

theorem isType_typeKind (kind : String) : (typeKind kind).isType = true := by
  unfold typeKind
  split <;> rfl

theorem grounded_typeItems : Grounded (·.isType = true) (typeItems src scope c) := by
  unfold typeItems
  split
  · exact .of_edgeless .nil
  · refine .declare (isType_typeKind _) (.append (.append ?_ ?_) (.within _ _))
    · exact edges_parents rfl _
    · exact edges_parameterItems _

theorem edges_routineItems : EdgesFrom T (routineItems src scope c) := by
  unfold routineItems
  split
  · exact .nil
  · exact .declare (.within _ _)

theorem edges_propertyItems : EdgesFrom T (propertyItems src scope c) :=
  .map fun _ => ⟨c.node, Item.declaredBy_declare ..⟩

theorem edges_fieldItems : EdgesFrom T (fieldItems src scope c) := by
  unfold fieldItems
  split
  · exact .nil
  · exact .filterMap_map fun _ _ => ⟨c.node, Item.declaredBy_declare ..⟩

theorem edges_namedItems (kind : SymbolKind) : EdgesFrom T (namedItems src scope kind c) :=
  .map fun _ => ⟨c.node, Item.declaredBy_declare ..⟩

theorem edges_namespaceItems : EdgesFrom T (namespaceItems src scope c) :=
  .append (.packages _ _) (.enter c scope)

end Edges

theorem rooted_rule : (rule src).Rooted (·.isType = true) fun _ => False := by
  refine .of_grounded fun scope c => ?_
  unfold rule
  split
  · rw [Option.toList_map]
    exact .of_edgeless (.imports _ id)
  iterate 2 · exact .of_edgeless edges_namespaceItems
  iterate 6 · exact grounded_typeItems
  · exact .of_edgeless (edges_namedItems _)
  iterate 3 · exact .of_edgeless edges_routineItems
  iterate 2 · exact .of_edgeless edges_propertyItems
  iterate 2 · exact .of_edgeless edges_fieldItems
  · exact .of_edgeless (edges_namedItems _)
  · exact .of_edgeless (.enter c scope)

/-! ## Heads -/

section Heads

variable {scope : Scope} {c : Cursor}

theorem oneLine_declaration (name : String) (kind : SymbolKind) (body : Option Tree) :
    (declaration src c scope name kind body).OneLine :=
  (oneLine_headline ..).dropTerminator _

theorem oneLine_fieldSignature (binding declarator : Tree) :
    Text.OneLine (fieldSignature src c binding declarator) :=
  (oneLine_headlines ..).dropTerminator _

theorem oneLine_parameterItems (t : Tree) : OneLineItems (parameterItems src scope t) :=
  .filterMap_map fun _ _ => oneLine_headline ..

theorem oneLine_typeItems : OneLineItems (typeItems src scope c) := by
  unfold typeItems
  split
  · exact .nil
  · refine .cons (oneLine_declaration ..) (.append (.append ?_ ?_) (.within _ _))
    · exact .silent (silent_parents _ _)
    · exact oneLine_parameterItems _

theorem oneLine_routineItems : OneLineItems (routineItems src scope c) := by
  unfold routineItems
  split
  · exact .nil
  · exact .cons (oneLine_declaration ..) (.within _ _)

theorem oneLine_propertyItems : OneLineItems (propertyItems src scope c) :=
  .map fun _ => oneLine_declaration ..

theorem oneLine_fieldItems : OneLineItems (fieldItems src scope c) := by
  unfold fieldItems
  split
  · exact .nil
  · exact .filterMap_map fun _ _ => oneLine_fieldSignature ..

theorem oneLine_namedItems (kind : SymbolKind) : OneLineItems (namedItems src scope kind c) :=
  .map fun _ => oneLine_declaration ..

theorem oneLine_namespaceItems : OneLineItems (namespaceItems src scope c) :=
  .append (.silent (.packages _ _)) (.enter c scope)

end Heads

theorem oneLine_rule : (rule src).OneLine fun _ => True := by
  intro scope c _
  unfold rule
  split
  · rw [Option.toList_map]
    exact .silent (.imports _ id)
  iterate 2 · exact oneLine_namespaceItems
  iterate 6 · exact oneLine_typeItems
  · exact oneLine_namedItems _
  iterate 3 · exact oneLine_routineItems
  iterate 2 · exact oneLine_propertyItems
  iterate 2 · exact oneLine_fieldItems
  · exact oneLine_namedItems _
  · exact .enter c scope

/-! ## Sealed nodes -/

@[simp] theorem summary_map_prune (comments : List Tree) :
    summary src (comments.map prune) = summary src comments := by
  simp [summary, Function.comp_def]

@[simp] theorem docstring_prune (c : Cursor) : docstring src c.prune = docstring src c := by
  simp [docstring]

theorem mark?_prune (t : Tree) : mark? src t.prune = mark? src t := by
  simp only [mark?, kind_prune, beq_iff_eq]
  split
  · next hkind =>
    have hopen := isSealed_of_kind hkind (by decide)
    simp [fieldText?_prune hopen, ofKind?_prune hopen, Function.comp_def]
  · rfl

theorem marks_prune {t : Tree} (h : t.isSealed = false) : marks src t.prune = marks src t := by
  simp only [marks, children_prune h, List.filter_map, List.flatMap_map, Function.comp_def,
    kind_prune]
  refine List.flatMap_congr fun list hlist => ?_
  have hopen := isSealed_of_mem_filter_kind hlist (by decide)
  rw [namedChildren_prune hopen, List.filterMap_map]
  exact List.filterMap_congr fun t _ => mark?_prune t

theorem headStart_prune {t : Tree} (h : t.isSealed = false) : headStart t.prune = headStart t :=
  startAfter_prune h _

theorem declaration_prune {c : Cursor} (h : c.node.isSealed = false) (scope : Scope)
    (name : String) (kind : SymbolKind) (body : Option Tree) :
    declaration src c.prune scope name kind (body.map prune) =
      declaration src c scope name kind body := by
  simp [declaration, headStart_prune h, marks_prune h]

@[simp] theorem prune_declaration (c : Cursor) (scope : Scope) (name : String) (kind : SymbolKind)
    (body : Option Tree) : (declaration src c scope name kind body).prune =
      declaration src c scope name kind body :=
  rfl

theorem parents_prune (child : String) {t : Tree} (h : t.isSealed = false) :
    parents src child t.prune = (parents src child t).map Item.prune := by
  simp only [parents, ofKind?_prune h]
  cases t.ofKind? "base_list" with
  | none => rfl
  | some list => simp [List.map_flatMap]

theorem parameterItems_prune (scope : Scope) {t : Tree} (h : t.isSealed = false) :
    parameterItems src scope t.prune = (parameterItems src scope t).map Item.prune := by
  simp only [parameterItems, ofKind?_prune h]
  cases hparameters : t.ofKind? "parameter_list" with
  | none => rfl
  | some parameters =>
    simp only [Option.map_some, Option.getD_some, List.filter_map, List.filterMap_map,
      List.map_filterMap, namedChildren_prune (isSealed_of_ofKind? hparameters (by decide)),
      Function.comp_def, kind_prune]
    refine List.filterMap_congr fun p hp => ?_
    have hopen := isSealed_of_mem_filter_kind hp (by decide)
    simp [fieldText?_prune hopen, marks_prune hopen, Function.comp_def]

theorem typeItems_prune (scope : Scope) {c : Cursor} (h : c.node.isSealed = false) :
    typeItems src scope c.prune = (typeItems src scope c).map Item.prune := by
  simp only [typeItems, Cursor.node_prune, fieldText?_prune h]
  split
  · rfl
  · simp [field?_prune h, declaration_prune h, parents_prune _ h, parameterItems_prune _ h,
      Cursor.field?_prune h]

theorem routineItems_prune (scope : Scope) {c : Cursor} (h : c.node.isSealed = false) :
    routineItems src scope c.prune = (routineItems src scope c).map Item.prune := by
  simp only [routineItems, Cursor.node_prune, fieldText?_prune h]
  split
  · rfl
  · simp only [Cursor.field?_prune h, Cursor.ofKind?_prune h, field?_prune h, ofKind?_prune h,
      ← Option.map_or]
    simp only [Cursor.map_node_map_prune, ← Option.map_or, declaration_prune h, kind_prune,
      List.map_cons, prune_declaration, Item.map_prune_within]

theorem propertyItems_prune (scope : Scope) {c : Cursor} (h : c.node.isSealed = false) :
    propertyItems src scope c.prune = (propertyItems src scope c).map Item.prune := by
  simp only [propertyItems, Cursor.node_prune, fieldText?_prune h, field?_prune h, ofKind?_prune h,
    ← Option.map_or, declaration_prune h, kind_prune, List.map_map, Function.comp_def,
    prune_declaration]

theorem fieldSignature_prune {c : Cursor} (h : c.node.isSealed = false) {binding declarator : Tree}
    (hb : binding.isSealed = false) (hd : declarator.isSealed = false) :
    fieldSignature src c.prune binding.prune declarator.prune =
      fieldSignature src c binding declarator := by
  simp [fieldSignature, headStart_prune h, field?_prune hb, field?_prune hd, ofKind?_prune hd,
    ← Option.map_or, Function.comp_def]

theorem fieldItems_prune (scope : Scope) {c : Cursor} (h : c.node.isSealed = false) :
    fieldItems src scope c.prune = (fieldItems src scope c).map Item.prune := by
  simp only [fieldItems, Cursor.node_prune, ofKind?_prune h]
  cases hbinding : c.node.ofKind? "variable_declaration" with
  | none => rfl
  | some binding =>
    have hb := isSealed_of_ofKind? hbinding (by decide)
    simp only [Option.map_some, namedChildren_prune hb, List.filter_map, List.filterMap_map,
      List.map_filterMap, Function.comp_def, kind_prune]
    refine List.filterMap_congr fun d hmem => ?_
    have hd := isSealed_of_mem_filter_kind hmem (by decide)
    simp [field?_prune hd, ofKind?_prune hd, ← Option.map_or, fieldSignature_prune h hb hd,
      marks_prune h, Function.comp_def]

theorem namedItems_prune (scope : Scope) (kind : SymbolKind) {c : Cursor}
    (h : c.node.isSealed = false) :
    namedItems src scope kind c.prune = (namedItems src scope kind c).map Item.prune := by
  have hitem : ∀ name, declaration src c.prune scope name kind none =
      declaration src c scope name kind none := fun name => declaration_prune h scope name kind none
  simp [namedItems, fieldText?_prune h, hitem, Function.comp_def]

theorem namespaceItems_prune (scope : Scope) {c : Cursor} (h : c.node.isSealed = false) :
    namespaceItems src scope c.prune = (namespaceItems src scope c).map Item.prune := by
  simp [namespaceItems, fieldText?_prune h, Function.comp_def]

theorem blind_rule : (rule src).Blind := by
  intro scope c h
  simp only [rule, Cursor.node_prune, kind_prune, text_prune]
  split
  · rw [← Option.toList_map, Option.map_map]
    rfl
  iterate 2 · exact namespaceItems_prune scope h
  iterate 6 · exact typeItems_prune scope h
  · exact namedItems_prune scope _ h
  iterate 3 · exact routineItems_prune scope h
  iterate 2 · exact propertyItems_prune scope h
  iterate 2 · exact fieldItems_prune scope h
  · exact namedItems_prune scope _ h
  · rfl

theorem callOf_prune (target : Tree) (arguments : Nat) :
    callOf src target.prune arguments = callOf src target arguments := by
  have hhead : ∀ s : Tree, isHead s.prune = isHead s := by simp [isHead]
  simp only [callOf, kind_prune, text_prune]
  split
  iterate 2 · rfl
  · next hkind =>
    rw [isChain_prune hhead (by decide), fieldText?_prune (isSealed_of_kind hkind (by decide))]
  · rfl

theorem site?_prune (modules : List String) {t : Tree} (h : t.isError = false) :
    site? src modules t.prune = site? src modules t := by
  have hopen := isSealed_of_isError h
  have hlist := CallSite.countArguments_ofKind?_prune hopen
    (show "argument_list" ≠ "ERROR" by decide)
  simp only [site?, kind_prune, text_prune, CallSite.countArguments_field?_prune hopen,
    fieldText?_prune hopen, hlist, field?_prune hopen "function", Option.map_map,
    Function.comp_def, callOf_prune]

theorem blind_dialect : dialect.Blind where
  docstring _ _ h := by simp [dialect, Comments.leading_prune _ _ _ _ h]
  rule _ := blind_rule
  isLocal _ := anchored_rule.isLocal
  site? _ modules _ h := site?_prune modules h

/-! ## Calls of paths -/

def accessPath : PathSyntax :=
  ⟨"invocation_expression", "member_access_expression", "expression", .dot⟩

/-- A path is called as it is written. -/
theorem site?_of_callsPath {c : Tree} {head : String} {members : List Member}
    (h : CallsPath accessPath src c head members) (modules : List String) :
    ∃ site, site? src modules c = some site ∧
      site.callee = some (head ++ Member.writtenAll "." members) := by
  obtain ⟨hcall, ⟨t, htarget, hspells⟩, hpicks⟩ := h
  have hkind : t.kind = "member_access_expression" := hspells.kind_eq hpicks
  have hchain : t.isChain isHead ["member_access_expression"] "expression" = true :=
    hspells.isChain fun s hs => by simp [isHead, hs]
  refine ⟨callOf src t (CallSite.countArguments (c.field? "arguments")), ?_, ?_⟩
  · simp [site?, hcall, accessPath, htarget]
  · simp [callOf, hkind, hchain, CallSite.direct, hspells.dropTypeArguments_text,
      PathSyntax.separator, accessPath, Separator.text]

/-! ## Targets of calls -/

/-- The part of a call that names its target. -/
def namePart? (t : Tree) : Option Tree :=
  match t.kind with
  | "object_creation_expression" => t.field? "type"
  | _ => t.field? "function"

theorem describes_callOf {t target : Tree} {part : Option Tree} {arguments : Nat}
    (htarget : target ∈ part) (hcounts : CallSite.Counts t arguments) :
    (callOf src target arguments).Describes src t part := by
  have hnamed (hpart : ∀ s ∈ part, Text.HasName (s.text src)) :
      Text.dropTypeArguments (target.text src) ≠ "" :=
    (hpart target htarget).dropTypeArguments_ne_empty
  unfold callOf
  split
  · exact .direct (by simp) hnamed hcounts
  · exact .direct (by simp) hnamed hcounts
  · split
    · exact .direct (CallSite.memberKind_ne_dynamic _ _) hnamed hcounts
    · exact .dynamic hcounts
  · exact .dynamic hcounts

theorem describes_site (modules : List String) {t : Tree} {site : CallSite}
    (h : site? src modules t = some site) : site.Describes src t (namePart? t) := by
  have hcounts := CallSite.counts_field? t "arguments"
  simp only [site?, fieldText?, Option.map_map] at h
  split at h
  · next hkind =>
    obtain ⟨target, htarget, rfl⟩ := Option.map_eq_some_iff.mp h
    exact describes_callOf (by simpa [namePart?, hkind] using htarget) hcounts
  · next hkind =>
    obtain ⟨type, htype, rfl⟩ := Option.map_eq_some_iff.mp h
    have hpart : type ∈ namePart? t := by simpa [namePart?, hkind] using htype
    exact .direct (by simp) (fun h => (h type hpart).dropTypeArguments_ne_empty) hcounts
  · cases h
    refine .direct (by simp) (fun _ => ?_) (CallSite.counts_ofKind? t "argument_list")
    unfold initializerTarget
    split <;> simp
  · cases h

end CodeOutline.CSharp
