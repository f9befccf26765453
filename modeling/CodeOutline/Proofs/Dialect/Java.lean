import CodeOutline.Dialect.Java
import CodeOutline.Proofs.Edges
import CodeOutline.Proofs.Enclosure
import CodeOutline.Proofs.OneLine
import CodeOutline.Proofs.Ordering
import CodeOutline.Proofs.Pruning
import CodeOutline.Proofs.Targets

/-!
# Facts about Java

All that is listed for a declaration stands in its scope, and nothing hangs on what is below sealed
nodes. The name of a module stands for itself, so it is declared in the outermost scope. The fields
that the parameters of a record are come before its members, so the order is that of the source if
the parameters precede the body. Edges to parents start at the type that lists them. Heads stand on
one line, if the name of an enum constant does: it is taken as it is written.
-/

namespace CodeOutline.Java

open CodeOutline.Tree

variable {src : String}

/-! ## Scopes -/

section Scopes

variable {owners : List Owner} {scope : Scope}

theorem anchored_superclass (child : String) (t : Tree) :
    Anchored src owners (superclass src child t) := by
  unfold superclass
  split
  · exact .nil
  · exact .inherit ..

theorem anchored_interfaces (child : String) (t : Tree) :
    Anchored src owners (interfaces src child t) := by
  unfold interfaces
  split
  · exact .nil
  · exact .inherits ..

theorem anchored_components {t : Tree} (howner : ⟨scope.path, t⟩ ∈ owners) :
    Anchored src owners (components src scope t) := by
  refine .of_forall fun item hitem => ?_
  simp only [components] at hitem
  obtain ⟨p, hp, hitem⟩ := List.mem_filterMap.mp hitem
  obtain ⟨name, _, rfl⟩ := Option.map_eq_some_iff.mp hitem
  have hmem := (List.mem_filter.mp hp).1
  refine .declare howner rfl ?_ .nil
  split at hmem
  · cases hparameters : t.field? "parameters" with
    | none => simp [hparameters] at hmem
    | some parameters =>
      simp only [hparameters, Option.map_some, Option.getD_some] at hmem
      exact mem_nodes_trans (mem_nodes_of_mem_namedChildren hmem) (mem_nodes_of_field? hparameters)
  · simp at hmem

variable {c : Cursor}

theorem anchored_typeItems (howner : ⟨scope.path, c.node⟩ ∈ owners) :
    Anchored src owners (typeItems src scope c) := by
  unfold typeItems
  split
  · exact .nil
  · refine .declare howner rfl (self_mem_nodes _) (.append (.append (.append ?_ ?_) ?_) ?_)
    · exact anchored_superclass ..
    · exact anchored_interfaces ..
    · exact anchored_components List.mem_cons_self
    · exact .within List.mem_cons_self rfl fun _ => Cursor.leads_of_field?

theorem anchored_routineItems (howner : ⟨scope.path, c.node⟩ ∈ owners) :
    Anchored src owners (routineItems src scope c) := by
  unfold routineItems
  split
  · exact .nil
  · refine .declare howner rfl (self_mem_nodes _) ?_
    exact .within List.mem_cons_self rfl fun _ => Cursor.leads_of_field?

theorem anchored_fieldItems (howner : ⟨scope.path, c.node⟩ ∈ owners) :
    Anchored src owners (fieldItems src scope c) := by
  refine .of_forall fun item hitem => ?_
  obtain ⟨declarator, _, hitem⟩ := List.mem_filterMap.mp hitem
  obtain ⟨name, _, rfl⟩ := Option.map_eq_some_iff.mp hitem
  exact .declare howner rfl (self_mem_nodes _) .nil

theorem anchored_constantItems (howner : ⟨scope.path, c.node⟩ ∈ owners) :
    Anchored src owners (constantItems src scope c) := by
  unfold constantItems
  split
  · exact .nil
  · refine .declare howner rfl (self_mem_nodes _) ?_
    exact .within List.mem_cons_self rfl fun _ => Cursor.leads_of_field?

theorem anchored_moduleItems (houtermost : ⟨[], c.node⟩ ∈ owners) :
    Anchored src owners (moduleItems src c) := by
  unfold moduleItems
  split
  · exact .nil
  · exact .declare houtermost rfl (self_mem_nodes _) .nil

theorem anchored_packageItems (t : Tree) : Anchored src owners (packageItems src t) := by
  refine .of_forall fun item hitem => ?_
  obtain ⟨name, _, rfl⟩ := List.mem_map.mp hitem
  exact .found rfl .nil

end Scopes

theorem anchored_rule : (rule src).Anchored src := by
  intro scope c hopen
  have howner := scope.mem_owners c
  unfold rule
  split
  · exact anchored_packageItems _
  · exact .found rfl .nil
  iterate 5 · exact anchored_typeItems howner
  iterate 3 · exact anchored_routineItems howner
  iterate 2 · exact anchored_fieldItems howner
  · exact anchored_constantItems howner
  · exact anchored_moduleItems (List.mem_cons_of_mem _ List.mem_cons_self)
  · exact .enter howner rfl (Leads.refl hopen) .nil

/-! ## Source order -/

/-- The parameters of a record precede its body. -/
def ParametersFirst (t : Tree) : Prop :=
  t.kind = "record_declaration" →
    ∀ p ∈ t.field? "parameters", ∀ b ∈ t.field? "body", p.stop ≤ b.start

instance (t : Tree) : Decidable (ParametersFirst t) :=
  inferInstanceAs (Decidable (_ → _))

section Order

variable {scope : Scope}

theorem silent_superclass (child : String) (t : Tree) : Silent (superclass src child t) := by
  unfold superclass
  split
  · exact .nil
  · exact .inherit _ _

theorem silent_interfaces (child : String) (t : Tree) : Silent (interfaces src child t) := by
  unfold interfaces
  split
  · exact .nil
  · exact .inherits _ _ _

variable {c : Cursor}

theorem inOrder_components (hwell : c.node.WellNested) (hfirst : ParametersFirst c.node)
    (inner : Scope) :
    InOrder c.node.start c.node.stop
      (components src scope c.node ++ Item.within (c.field? "body") inner) := by
  have hbody : ∀ b ∈ c.field? "body", b.node ∈ c.node.nodes :=
    fun b hb => (Cursor.leads_of_field? hb).1
  simp only [components]
  split
  · next hkind =>
    refine .parameters_append_within hwell (fun p hp => mem_nodes_of_field? hp) hbody ?_ ?_
    · intro p hp b hb
      refine hfirst (by simpa using hkind) p hp b.node ?_
      rw [← Cursor.map_node_field?]
      exact Option.mem_map_of_mem _ hb
    · intro p item hitem
      obtain ⟨name, _, rfl⟩ := Option.map_eq_some_iff.mp hitem
      exact Item.declaredBy_declare ..
  · exact .within hwell hbody

theorem inOrder_typeItems (hwell : c.node.WellNested) (hfirst : ParametersFirst c.node) :
    InOrder c.node.start c.node.stop (typeItems src scope c) := by
  unfold typeItems
  split
  · exact .nil hwell.start_le_stop
  · refine .declare ?_
    rw [List.append_assoc]
    refine .silent_append (.append ?_ ?_) (inOrder_components hwell hfirst _)
    · exact silent_superclass _ _
    · exact silent_interfaces _ _

theorem inOrder_routineItems (hwell : c.node.WellNested) :
    InOrder c.node.start c.node.stop (routineItems src scope c) := by
  unfold routineItems
  split
  · exact .nil hwell.start_le_stop
  · exact .declare (.within_field hwell _ _)

theorem inOrder_fieldItems (hwell : c.node.WellNested) :
    InOrder c.node.start c.node.stop (fieldItems src scope c) := by
  exact .filterMap_map hwell.start_le_stop fun _ _ => Item.declaredBy_declare ..

theorem inOrder_constantItems (hwell : c.node.WellNested) :
    InOrder c.node.start c.node.stop (constantItems src scope c) := by
  unfold constantItems
  split
  · exact .nil hwell.start_le_stop
  · exact .declare (.within_field hwell _ _)

theorem inOrder_moduleItems (hwell : c.node.WellNested) :
    InOrder c.node.start c.node.stop (moduleItems src c) := by
  unfold moduleItems
  split
  · exact .nil hwell.start_le_stop
  · exact .declare (.nil hwell.start_le_stop)

end Order

theorem forward_rule : (rule src).Forward ParametersFirst := by
  intro scope c hwell hfirst
  have hle := hwell.start_le_stop
  unfold rule
  split
  · exact .silent (.packages _ _) hle
  · exact .silent (.singleton rfl) hle
  iterate 5 · exact inOrder_typeItems hwell hfirst
  iterate 3 · exact inOrder_routineItems hwell
  iterate 2 · exact inOrder_fieldItems hwell
  · exact inOrder_constantItems hwell
  · exact inOrder_moduleItems hwell
  · exact .enter hle scope

/-! ## Edges -/

section Edges

variable {T : String → Prop} {scope : Scope} {c : Cursor}

theorem edges_superclass {child : String} (h : T child) (t : Tree) :
    EdgesFrom T (superclass src child t) := by
  unfold superclass
  split
  · exact .nil
  · exact .inherit h _

theorem edges_interfaces {child : String} (h : T child) (t : Tree) :
    EdgesFrom T (interfaces src child t) := by
  unfold interfaces
  split
  · exact .nil
  · exact .inherits h _ _

theorem edges_components (t : Tree) : EdgesFrom T (components src scope t) :=
  .filterMap_map fun p _ => ⟨p, Item.declaredBy_declare ..⟩

theorem isType_typeKind (kind : String) : (typeKind kind).isType = true := by
  unfold typeKind
  split <;> rfl

theorem grounded_typeItems : Grounded (·.isType = true) (typeItems src scope c) := by
  unfold typeItems
  split
  · exact .of_edgeless .nil
  · refine .declare (isType_typeKind _) (.append (.append (.append ?_ ?_) ?_) (.within _ _))
    · exact edges_superclass rfl _
    · exact edges_interfaces rfl _
    · exact edges_components _

theorem edges_routineItems : EdgesFrom T (routineItems src scope c) := by
  unfold routineItems
  split
  · exact .nil
  · exact .declare (.within _ _)

theorem edges_fieldItems : EdgesFrom T (fieldItems src scope c) :=
  .filterMap_map fun _ _ => ⟨c.node, Item.declaredBy_declare ..⟩

theorem edges_constantItems : EdgesFrom T (constantItems src scope c) := by
  unfold constantItems
  split
  · exact .nil
  · exact .declare (.within _ _)

theorem edges_moduleItems : EdgesFrom T (moduleItems src c) := by
  unfold moduleItems
  split
  · exact .nil
  · exact .declare .nil

end Edges

theorem rooted_rule : (rule src).Rooted (·.isType = true) fun _ => False := by
  refine .of_grounded fun scope c => ?_
  unfold rule
  split
  · exact .of_edgeless (.packages _ _)
  · exact .of_edgeless (.imported _)
  iterate 5 · exact grounded_typeItems
  iterate 3 · exact .of_edgeless edges_routineItems
  iterate 2 · exact .of_edgeless edges_fieldItems
  · exact .of_edgeless edges_constantItems
  · exact .of_edgeless edges_moduleItems
  · exact .of_edgeless (.enter c scope)

/-! ## Heads -/

/-- The name of an enum constant, which is its head, holds no blanks. -/
def PlainConstant (src : String) (t : Tree) : Prop :=
  t.kind = "enum_constant" → ∀ name ∈ t.fieldText? src "name", ∀ c ∈ name.toList,
    Text.isBlank c = false

instance (src : String) (t : Tree) : Decidable (PlainConstant src t) :=
  let plain (name : String) : Bool := name.toList.all fun c => !Text.isBlank c
  decidable_of_iff (t.kind = "enum_constant" → (t.fieldText? src "name").all plain = true) (by
    simp [PlainConstant, plain, Option.all_eq_true])

section Heads

variable {scope : Scope} {c : Cursor}

theorem oneLine_signature (src : String) (t : Tree) (body : Option Tree) :
    Text.OneLine (signature src t body) :=
  (oneLine_headline ..).dropTerminator _

theorem oneLine_components (t : Tree) : OneLineItems (components src scope t) :=
  .filterMap_map fun _ _ => oneLine_headline ..

theorem oneLine_typeItems : OneLineItems (typeItems src scope c) := by
  unfold typeItems
  split
  · exact .nil
  · refine .cons (oneLine_signature ..) (.append (.append ?_ ?_) (.within _ _))
    · exact .silent (.append (silent_superclass _ _) (silent_interfaces _ _))
    · exact oneLine_components _

theorem oneLine_routineItems : OneLineItems (routineItems src scope c) := by
  unfold routineItems
  split
  · exact .nil
  · exact .cons (oneLine_signature ..) (.within _ _)

theorem oneLine_fieldItems : OneLineItems (fieldItems src scope c) :=
  .filterMap_map fun _ _ => oneLine_signature ..

theorem oneLine_constantItems
    (h : ∀ name ∈ c.node.fieldText? src "name", ∀ c ∈ name.toList, Text.isBlank c = false) :
    OneLineItems (constantItems src scope c) := by
  unfold constantItems
  split
  · exact .nil
  · next name hname => exact .cons (Text.oneLine_of_solid (h name hname)) (.within _ _)

theorem oneLine_moduleItems : OneLineItems (moduleItems src c) := by
  unfold moduleItems
  split
  · exact .nil
  · exact .cons (oneLine_signature ..) .nil

end Heads

theorem oneLine_rule : (rule src).OneLine (PlainConstant src) := by
  intro scope c hplain
  unfold rule
  split
  · exact .silent (.packages _ _)
  · exact .silent (.singleton rfl)
  iterate 5 · exact oneLine_typeItems
  iterate 3 · exact oneLine_routineItems
  iterate 2 · exact oneLine_fieldItems
  · next hkind => exact oneLine_constantItems (hplain hkind)
  · exact oneLine_moduleItems
  · exact .enter c scope

/-! ## Sealed nodes -/

theorem markNodes_prune {t : Tree} (h : t.isSealed = false) :
    markNodes t.prune = (markNodes t).map prune := by
  rw [markNodes, markNodes, ofKind?_prune h]
  cases hmodifiers : t.ofKind? "modifiers" with
  | none => rfl
  | some modifiers =>
    simp [children_prune (isSealed_of_ofKind? hmodifiers (by decide)), List.filter_map,
      Function.comp_def]

theorem isSealed_of_mem_markNodes {t m : Tree} (h : m ∈ markNodes t) : m.isSealed = false := by
  refine isSealed_of_kind rfl fun hkind => ?_
  simp [markNodes, List.mem_filter, markKinds, hkind] at h

theorem marks_prune {t : Tree} (h : t.isSealed = false) : marks src t.prune = marks src t := by
  rw [marks, marks, markNodes_prune h, List.filterMap_map]
  refine List.filterMap_congr fun m hm => ?_
  simp [fieldText?_prune (isSealed_of_mem_markNodes hm)]

theorem signature_prune {t : Tree} (h : t.isSealed = false) (body : Option Tree) :
    signature src t.prune (body.map prune) = signature src t body := by
  simp [signature, markNodes_prune h, Function.comp_def]

theorem signature_prune_none {t : Tree} (h : t.isSealed = false) :
    signature src t.prune none = signature src t none :=
  signature_prune h none

@[simp] theorem docstring_prune (c : Cursor) : docstring src c.prune = docstring src c :=
  Comments.blockSummary_prune src [] c

theorem superclass_prune (child : String) {t : Tree} (h : t.isSealed = false) :
    superclass src child t.prune = (superclass src child t).map Item.prune := by
  simp only [superclass, fieldText?_prune h]
  split <;> simp

theorem interfaces_prune (child : String) {t : Tree} (h : t.isSealed = false) :
    interfaces src child t.prune = (interfaces src child t).map Item.prune := by
  simp only [interfaces, field?_prune h, ofKind?_prune h, ← Option.map_or]
  cases (t.field? "interfaces").or (t.ofKind? "extends_interfaces") with
  | none => rfl
  | some clause => simp [List.map_flatMap]

theorem components_prune (scope : Scope) {t : Tree} (h : t.isSealed = false) :
    components src scope t.prune = (components src scope t).map Item.prune := by
  simp only [components, kind_prune, field?_prune h]
  split
  · cases hparameters : t.field? "parameters" with
    | none => rfl
    | some parameters =>
      simp only [Option.map_some, Option.getD_some, List.filter_map, List.filterMap_map,
        List.map_filterMap, namedChildren_prune (isSealed_of_field? hparameters),
        Function.comp_def, kind_prune]
      refine List.filterMap_congr fun p hp => ?_
      have hopen := isSealed_of_mem_filter_kind hp (by decide)
      simp [fieldText?_prune hopen, Function.comp_def]
  · rfl

theorem typeItems_prune (scope : Scope) {c : Cursor} (h : c.node.isSealed = false) :
    typeItems src scope c.prune = (typeItems src scope c).map Item.prune := by
  simp only [typeItems, Cursor.node_prune, fieldText?_prune h]
  split
  · rfl
  · simp [signature_prune h, marks_prune h, superclass_prune _ h, interfaces_prune _ h,
      components_prune _ h, field?_prune h, Cursor.field?_prune h]

theorem routineItems_prune (scope : Scope) {c : Cursor} (h : c.node.isSealed = false) :
    routineItems src scope c.prune = (routineItems src scope c).map Item.prune := by
  simp only [routineItems, Cursor.node_prune, fieldText?_prune h]
  split
  · rfl
  · simp [signature_prune h, marks_prune h, field?_prune h, Cursor.field?_prune h]

theorem fieldItems_prune (scope : Scope) {c : Cursor} (h : c.node.isSealed = false) :
    fieldItems src scope c.prune = (fieldItems src scope c).map Item.prune := by
  simp only [fieldItems, Cursor.node_prune, fields_prune h, List.filterMap_map,
    List.map_filterMap, signature_prune_none h, marks_prune h, docstring_prune]
  refine List.filterMap_congr fun declarator hmem => ?_
  simp [fieldText?_prune (isSealed_of_mem_fields hmem), Function.comp_def]

theorem constantItems_prune (scope : Scope) {c : Cursor} (h : c.node.isSealed = false) :
    constantItems src scope c.prune = (constantItems src scope c).map Item.prune := by
  simp only [constantItems, Cursor.node_prune, fieldText?_prune h]
  split
  · rfl
  · simp [marks_prune h, Cursor.field?_prune h]

theorem moduleItems_prune {c : Cursor} (h : c.node.isSealed = false) :
    moduleItems src c.prune = (moduleItems src c).map Item.prune := by
  simp only [moduleItems, Cursor.node_prune, fieldText?_prune h]
  split
  · rfl
  · simp [signature_prune h, marks_prune h, field?_prune h]

theorem packageItems_prune {t : Tree} (h : t.isSealed = false) :
    packageItems src t.prune = (packageItems src t).map Item.prune := by
  simp [packageItems, namedChildren_prune h, List.find?_map, Function.comp_def, Option.toList_map]

theorem blind_rule : (rule src).Blind := by
  intro scope c h
  simp only [rule, Cursor.node_prune, kind_prune, text_prune]
  split
  · exact packageItems_prune h
  · rfl
  iterate 5 · exact typeItems_prune scope h
  iterate 3 · exact routineItems_prune scope h
  iterate 2 · exact fieldItems_prune scope h
  · exact constantItems_prune scope h
  · exact moduleItems_prune h
  · rfl

theorem methodCall_prune (name : String) (receiver : Option Tree) (arguments : Nat) :
    methodCall src name (receiver.map prune) arguments =
      methodCall src name receiver arguments := by
  have hhead : ∀ s : Tree, isHead s.prune = isHead s := by simp [isHead]
  cases receiver with
  | none => rfl
  | some object => simp [methodCall, isChain_prune hhead]

theorem site?_prune (modules : List String) {t : Tree} (h : t.isError = false) :
    site? src modules t.prune = site? src modules t := by
  have hopen := isSealed_of_isError h
  simp only [site?, kind_prune, fieldText?_prune hopen,
    CallSite.countArguments_field?_prune hopen, field?_prune hopen "object", methodCall_prune]

theorem blind_dialect : dialect.Blind where
  docstring _ _ h := Comments.leadingBlockSummary_prune _ _ _ h
  rule _ := blind_rule
  isLocal _ := anchored_rule.isLocal
  site? _ modules _ h := site?_prune modules h

/-! ## Targets of calls -/

/-- The part of a call that names its target. -/
def namePart? (t : Tree) : Option Tree :=
  match t.kind with
  | "object_creation_expression" => t.field? "type"
  | "explicit_constructor_invocation" => t.field? "constructor"
  | _ => t.field? "name"

theorem describes_methodCall {t name : Tree} {receiver part : Option Tree} {arguments : Nat}
    (hname : name ∈ part) (hcounts : CallSite.Counts t arguments) :
    (methodCall src (name.text src) receiver arguments).Describes src t part := by
  unfold methodCall
  split
  · exact .direct (by simp) (fun hpart => (hpart name hname).ne_empty) hcounts
  · split
    · refine .direct (CallSite.memberKind_ne_dynamic _ _) (fun _ => ?_) hcounts
      exact Text.ne_empty_of_mem (c := '.') (by simp [toString])
    · exact .dynamic hcounts

theorem describes_site (modules : List String) {t : Tree} {site : CallSite}
    (h : site? src modules t = some site) : site.Describes src t (namePart? t) := by
  have hcounts := CallSite.counts_field? t "arguments"
  simp only [site?, fieldText?, Option.map_map] at h
  split at h
  · next hkind =>
    obtain ⟨name, hname, rfl⟩ := Option.map_eq_some_iff.mp h
    exact describes_methodCall (by simpa [namePart?, hkind] using hname) hcounts
  · next hkind =>
    obtain ⟨type, htype, rfl⟩ := Option.map_eq_some_iff.mp h
    have hpart : type ∈ namePart? t := by simpa [namePart?, hkind] using htype
    exact .direct (by simp) (fun h => (h type hpart).dropTypeArguments_ne_empty) hcounts
  · next hkind =>
    obtain ⟨target, htarget, rfl⟩ := Option.map_eq_some_iff.mp h
    have hpart : target ∈ namePart? t := by simpa [namePart?, hkind] using htarget
    exact .direct (by simp) (fun h => (h target hpart).ne_empty) hcounts
  · cases h

end CodeOutline.Java
