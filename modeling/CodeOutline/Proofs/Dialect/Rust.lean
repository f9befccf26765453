import CodeOutline.Dialect.Rust
import CodeOutline.Proofs.Edges
import CodeOutline.Proofs.OneLine
import CodeOutline.Proofs.Ordering
import CodeOutline.Proofs.Paths
import CodeOutline.Proofs.Pruning
import CodeOutline.Proofs.Targets

/-!
# Facts about Rust

All that is listed for an item lies at or below it, in the order of the source, and nothing hangs on
what is below sealed nodes. The members of an `impl` block stand in the scope of a type that may be
declared anywhere, so no more is said of the scopes, nor of where edges start. Heads stand on one
line.
-/

namespace CodeOutline.Rust

open CodeOutline.Tree

variable {src : String}

theorem eq_declaration_of_memberItem? {scope : Scope} {kind : String} {c : Cursor} {item : Item}
    (h : memberItem? src scope kind c = some item) :
    ∃ name, item = declaration src c scope name .field (headline src c.node.start c.node.stop) := by
  simp only [memberItem?, Option.bind_eq_bind] at h
  split at h
  · obtain ⟨name, _, hitem⟩ := Option.bind_eq_some_iff.mp h
    exact ⟨name, (Option.some.inj hitem).symm⟩
  · simp at h

/-! ## Spans -/

section Spans

variable {scope : Scope} {c : Cursor} {item : Item}

theorem local_of_mem_within_body (h : item ∈ Item.within (c.field? "body") scope) :
    item.Local src c.node :=
  Item.local_of_mem_within (fun _ => Cursor.leads_of_field?) h

theorem local_of_memberItem? {kind : String} {t : Tree} (hc : c.node ∈ t.nodes)
    (h : memberItem? src scope kind c = some item) : item.Local src t := by
  obtain ⟨name, rfl⟩ := eq_declaration_of_memberItem? h
  exact Item.local_declare hc ..

theorem local_of_mem_members {kind : String} {body : Option Cursor}
    (hbody : ∀ b, body = some b → b.node ∈ c.node.nodes)
    (h : item ∈ ((body.map Cursor.namedChildren).getD []).filterMap
      (memberItem? src scope kind)) : item.Local src c.node := by
  obtain ⟨m, hm, hitem⟩ := List.mem_filterMap.mp h
  cases body with
  | none => simp at hm
  | some b =>
    have hin := mem_nodes_trans (Cursor.mem_nodes_of_mem_namedChildren hm) (hbody b rfl)
    exact local_of_memberItem? hin hitem

theorem local_of_mem_routineItems (h : item ∈ routineItems src scope c) :
    item.Local src c.node := by
  unfold routineItems at h
  split at h
  · simp at h
  · rcases List.mem_cons.mp h with rfl | h
    · exact Item.local_declare (self_mem_nodes _) ..
    · exact local_of_mem_within_body h

theorem local_of_mem_structItems (h : item ∈ structItems src scope c) :
    item.Local src c.node := by
  unfold structItems at h
  split at h
  · simp at h
  · rcases List.mem_cons.mp h with rfl | h
    · exact Item.local_declare (self_mem_nodes _) ..
    · refine local_of_mem_members (fun b hb => ?_) h
      exact (Cursor.leads_of_field? (Option.filter_eq_some_iff.mp hb).1).1

theorem local_of_mem_enumItems (h : item ∈ enumItems src scope c) : item.Local src c.node := by
  unfold enumItems at h
  split at h
  · simp at h
  · rcases List.mem_cons.mp h with rfl | h
    · exact Item.local_declare (self_mem_nodes _) ..
    · exact local_of_mem_members (fun b hb => (Cursor.leads_of_field? hb).1) h

theorem local_of_mem_traitItems (h : item ∈ traitItems src scope c) : item.Local src c.node := by
  unfold traitItems at h
  split at h
  · simp at h
  · rcases List.mem_cons.mp h with rfl | h
    · exact Item.local_declare (self_mem_nodes _) ..
    · rcases List.mem_append.mp h with h | h
      · unfold supertraits at h
        split at h
        · simp at h
        · obtain ⟨bound, _, h⟩ := List.mem_flatMap.mp h
          exact Item.local_of_mem_inherit h
      · exact local_of_mem_within_body h

theorem local_of_mem_implItems (h : item ∈ implItems src scope c) : item.Local src c.node := by
  unfold implItems at h
  split at h
  · simp at h
  · split at h
    · simp at h
    · rcases List.mem_append.mp h with h | h
      · split at h
        · simp at h
        · exact Item.local_of_mem_inherit h
      · exact local_of_mem_within_body h

theorem local_of_mem_moduleItems (h : item ∈ moduleItems src scope c) :
    item.Local src c.node := by
  unfold moduleItems at h
  split at h
  · simp at h
  · rcases List.mem_cons.mp h with rfl | h
    · exact Item.local_declare (self_mem_nodes _) ..
    · exact local_of_mem_within_body h

theorem local_of_mem_useItems {t : Tree} (h : item ∈ useItems src t) : item.Local src t := by
  unfold useItems at h
  split at h
  · simp at h
  · obtain ⟨i, _, rfl⟩ := List.mem_map.mp h
    trivial

end Spans

theorem local_rule : (rule src).Local src := by
  intro scope c hopen item hitem
  have hhere : (Item.enter c scope).Local src c.node := Leads.refl hopen
  unfold rule at hitem
  split at hitem
  · exact local_of_mem_useItems hitem
  · obtain ⟨name, _, rfl⟩ := List.mem_map.mp hitem
    trivial
  iterate 2 · exact local_of_mem_routineItems hitem
  iterate 2 · exact local_of_mem_structItems hitem
  · exact local_of_mem_enumItems hitem
  · exact local_of_mem_traitItems hitem
  · exact local_of_mem_implItems hitem
  · exact local_of_mem_moduleItems hitem
  iterate 2
    · split at hitem
      · exact List.mem_singleton.mp hitem ▸ hhere
      · obtain ⟨name, _, rfl⟩ := List.mem_map.mp hitem
        exact Item.local_declare (self_mem_nodes _) ..
  iterate 2
    · obtain ⟨name, _, rfl⟩ := List.mem_map.mp hitem
      exact Item.local_declare (self_mem_nodes _) ..
  · exact List.mem_singleton.mp hitem ▸ hhere

/-! ## Source order -/

section Order

variable {scope : Scope} {c : Cursor}

theorem declaredBy_memberItem? {kind : String} {item : Item}
    (h : memberItem? src scope kind c = some item) : item.DeclaredBy c.node := by
  obtain ⟨name, rfl⟩ := eq_declaration_of_memberItem? h
  exact Item.declaredBy_declare ..

theorem inOrder_routineItems (hwell : c.node.WellNested) :
    InOrder c.node.start c.node.stop (routineItems src scope c) := by
  unfold routineItems
  split
  · exact .nil hwell.start_le_stop
  · exact .declare (.within_field hwell _ _)

theorem inOrder_structItems (hwell : c.node.WellNested) :
    InOrder c.node.start c.node.stop (structItems src scope c) := by
  unfold structItems
  split
  · exact .nil hwell.start_le_stop
  · refine .declare (.members hwell (fun b hb => ?_) fun m item => declaredBy_memberItem?)
    exact (Cursor.leads_of_field? (Option.filter_eq_some_iff.mp hb).1).1

theorem inOrder_enumItems (hwell : c.node.WellNested) :
    InOrder c.node.start c.node.stop (enumItems src scope c) := by
  unfold enumItems
  split
  · exact .nil hwell.start_le_stop
  · refine .declare (.members hwell (fun b hb => ?_) fun m item => declaredBy_memberItem?)
    exact (Cursor.leads_of_field? hb).1

theorem silent_supertraits (child : String) (t : Tree) : Silent (supertraits src child t) := by
  unfold supertraits
  split
  · exact .nil
  · exact .inherits _ _ _

theorem inOrder_traitItems (hwell : c.node.WellNested) :
    InOrder c.node.start c.node.stop (traitItems src scope c) := by
  unfold traitItems
  split
  · exact .nil hwell.start_le_stop
  · exact .declare (.silent_append (silent_supertraits _ _) (.within_field hwell _ _))

theorem inOrder_implItems (hwell : c.node.WellNested) :
    InOrder c.node.start c.node.stop (implItems src scope c) := by
  unfold implItems
  split
  · exact .nil hwell.start_le_stop
  · split
    · exact .nil hwell.start_le_stop
    · refine .silent_append ?_ (.within_field hwell _ _)
      split
      · exact .nil
      · exact .inherit _ _

theorem inOrder_moduleItems (hwell : c.node.WellNested) :
    InOrder c.node.start c.node.stop (moduleItems src scope c) := by
  unfold moduleItems
  split
  · exact .nil hwell.start_le_stop
  · exact .declare (.within_field hwell _ _)

theorem inOrder_constantItems (hwell : c.node.WellNested) :
    InOrder c.node.start c.node.stop (constantItems src scope c) := by
  exact .map hwell.start_le_stop fun _ => Item.declaredBy_declare ..

theorem inOrder_typeAliasItems (hwell : c.node.WellNested) :
    InOrder c.node.start c.node.stop (typeAliasItems src scope c) := by
  exact .map hwell.start_le_stop fun _ => Item.declaredBy_declare ..

theorem silent_useItems (t : Tree) : Silent (useItems src t) := by
  unfold useItems
  split
  · exact .nil
  · exact .imports _ id

end Order

theorem forward_rule : (rule src).Forward fun _ => True := by
  intro scope c hwell _
  have hle := hwell.start_le_stop
  unfold rule
  split
  · exact .silent (silent_useItems _) hle
  · exact .silent (.imports _ _) hle
  iterate 2 · exact inOrder_routineItems hwell
  iterate 2 · exact inOrder_structItems hwell
  · exact inOrder_enumItems hwell
  · exact inOrder_traitItems hwell
  · exact inOrder_implItems hwell
  · exact inOrder_moduleItems hwell
  iterate 2
    · split
      · exact .enter hle scope
      · exact inOrder_constantItems hwell
  iterate 2 · exact inOrder_typeAliasItems hwell
  · exact .enter hle scope

/-! ## Edges -/

section Edges

variable {T : String → Prop} {scope : Scope} {c : Cursor}

theorem edges_routineItems : EdgesFrom T (routineItems src scope c) := by
  unfold routineItems
  split
  · exact .nil
  · exact .declare (.within _ _)

theorem edges_structItems : EdgesFrom T (structItems src scope c) := by
  unfold structItems
  split
  · exact .nil
  · exact .declare (.filterMap fun m item hitem => ⟨m.node, declaredBy_memberItem? hitem⟩)

theorem edges_enumItems : EdgesFrom T (enumItems src scope c) := by
  unfold enumItems
  split
  · exact .nil
  · exact .declare (.filterMap fun m item hitem => ⟨m.node, declaredBy_memberItem? hitem⟩)

theorem edges_supertraits {child : String} (h : T child) (t : Tree) :
    EdgesFrom T (supertraits src child t) := by
  unfold supertraits
  split
  · exact .nil
  · exact .inherits h _ _

theorem edges_traitItems (h : ∀ name, T name) : EdgesFrom T (traitItems src scope c) := by
  unfold traitItems
  split
  · exact .nil
  · exact .declare (.append (edges_supertraits (h _) _) (.within _ _))

theorem edges_implItems (h : ∀ name, T name) : EdgesFrom T (implItems src scope c) := by
  unfold implItems
  split
  · exact .nil
  · split
    · exact .nil
    · refine .append ?_ (.within _ _)
      split
      · exact .nil
      · exact .inherit (h _) _

theorem edges_moduleItems : EdgesFrom T (moduleItems src scope c) := by
  unfold moduleItems
  split
  · exact .nil
  · exact .declare (.within _ _)

theorem edges_useItems (t : Tree) : EdgesFrom T (useItems src t) := by
  unfold useItems
  split
  · exact .nil
  · exact .imports _ id

end Edges

/-- An implementation may be of a type declared anywhere, so edges may start anywhere. -/
theorem edges_rule (scope : Scope) (c : Cursor) : EdgesFrom (fun _ => True) (rule src scope c) := by
  unfold rule
  split
  · exact edges_useItems _
  · exact .imports _ _
  iterate 2 · exact edges_routineItems
  iterate 2 · exact edges_structItems
  · exact edges_enumItems
  · exact edges_traitItems fun _ => trivial
  · exact edges_implItems fun _ => trivial
  · exact edges_moduleItems
  iterate 2
    · split
      · exact .enter c scope
      · exact .map fun _ => ⟨c.node, Item.declaredBy_declare ..⟩
  iterate 2 · exact .map fun _ => ⟨c.node, Item.declaredBy_declare ..⟩
  · exact .enter c scope

/-! ## Heads -/

section Heads

variable {scope : Scope} {c : Cursor}

theorem oneLine_signature (src : String) (t : Tree) (body : Option Tree) :
    Text.OneLine (signature src t body) :=
  (oneLine_headline ..).dropTerminator _

theorem oneLine_memberItem? {kind : String} {item : Item}
    (h : memberItem? src scope kind c = some item) : item.OneLine := by
  obtain ⟨name, rfl⟩ := eq_declaration_of_memberItem? h
  exact oneLine_headline ..

theorem oneLine_routineItems : OneLineItems (routineItems src scope c) := by
  unfold routineItems
  split
  · exact .nil
  · exact .cons (oneLine_signature ..) (.within _ _)

theorem oneLine_structItems : OneLineItems (structItems src scope c) := by
  unfold structItems
  split
  · exact .nil
  · exact .cons (oneLine_signature ..) (.filterMap fun _ _ => oneLine_memberItem?)

theorem oneLine_enumItems : OneLineItems (enumItems src scope c) := by
  unfold enumItems
  split
  · exact .nil
  · exact .cons (oneLine_signature ..) (.filterMap fun _ _ => oneLine_memberItem?)

theorem oneLine_traitItems : OneLineItems (traitItems src scope c) := by
  unfold traitItems
  split
  · exact .nil
  · refine .cons (oneLine_signature ..) (.append (.silent ?_) (.within _ _))
    exact silent_supertraits _ _

theorem oneLine_implItems : OneLineItems (implItems src scope c) := by
  simp only [implItems]
  split
  · exact .nil
  · split
    · exact .nil
    · refine .append (.silent ?_) (.within _ _)
      split
      · exact .nil
      · exact .inherit _ _

theorem oneLine_moduleItems : OneLineItems (moduleItems src scope c) := by
  unfold moduleItems
  split
  · exact .nil
  · exact .cons (oneLine_signature ..) (.within _ _)

theorem oneLine_constantItems : OneLineItems (constantItems src scope c) :=
  .map fun _ => (oneLine_signature ..).dropTerminator _

theorem oneLine_typeAliasItems : OneLineItems (typeAliasItems src scope c) :=
  .map fun _ => oneLine_signature ..

end Heads

theorem oneLine_rule : (rule src).OneLine fun _ => True := by
  intro scope c _
  unfold rule
  split
  · exact .silent (silent_useItems _)
  · exact .silent (.imports _ _)
  iterate 2 · exact oneLine_routineItems
  iterate 2 · exact oneLine_structItems
  · exact oneLine_enumItems
  · exact oneLine_traitItems
  · exact oneLine_implItems
  · exact oneLine_moduleItems
  iterate 2
    · split
      · exact .enter c scope
      · exact oneLine_constantItems
  iterate 2 · exact oneLine_typeAliasItems
  · exact .enter c scope

/-! ## Sealed nodes -/

@[simp] theorem docstring_prune (c : Cursor) : docstring src c.prune = docstring src c := by
  simp only [docstring, Comments.before_prune, List.map_map, Function.comp_def, text_prune]

theorem innerDocs_map_prune (taken : List String) (ts : List Tree) :
    innerDocs src taken (ts.map prune) = innerDocs src taken ts := by
  induction ts generalizing taken with
  | nil => rfl
  | cons t ts ih => simp only [List.map_cons, innerDocs, kind_prune, text_prune, ih]

@[simp] theorem marks_prune (c : Cursor) : marks src c.prune = marks src c := by
  simp [marks, List.takeWhile_map, List.filter_map, List.filterMap_map, Function.comp_def]

theorem signature_prune (t : Tree) (body : Option Tree) :
    signature src t.prune (body.map prune) = signature src t body := by
  simp [signature]

@[simp] theorem declaration_prune (c : Cursor) (scope : Scope) (name : String)
    (kind : SymbolKind) (signature : String) :
    declaration src c.prune scope name kind signature =
      declaration src c scope name kind signature := by
  simp [declaration]

@[simp] theorem prune_declaration (c : Cursor) (scope : Scope) (name : String)
    (kind : SymbolKind) (signature : String) :
    (declaration src c scope name kind signature).prune =
      declaration src c scope name kind signature :=
  rfl

theorem routineItems_prune (scope : Scope) {c : Cursor} (h : c.node.isSealed = false) :
    routineItems src scope c.prune = (routineItems src scope c).map Item.prune := by
  simp only [routineItems, Cursor.node_prune, fieldText?_prune h]
  split
  · rfl
  · simp [field?_prune h, signature_prune, Cursor.field?_prune h]

theorem memberItem?_prune (scope : Scope) {kind : String} (hk : kind ≠ "ERROR") (c : Cursor) :
    memberItem? src scope kind c.prune = (memberItem? src scope kind c).map Item.prune := by
  simp only [memberItem?, Cursor.node_prune, kind_prune, beq_iff_eq]
  split
  · next hkind =>
    simp [fieldText?_prune (isSealed_of_kind hkind hk), Option.map_bind, Function.comp_def]
  · rfl

theorem members_prune (scope : Scope) {kind : String} (hk : kind ≠ "ERROR")
    {body : Option Cursor} (hbody : ∀ b, body = some b → b.node.isSealed = false) :
    (((body.map Cursor.prune).map Cursor.namedChildren).getD []).filterMap
        (memberItem? src scope kind) =
      (((body.map Cursor.namedChildren).getD []).filterMap
        (memberItem? src scope kind)).map Item.prune := by
  cases body with
  | none => rfl
  | some b =>
    simp [Cursor.namedChildren_prune (hbody b rfl), List.filterMap_map, List.map_filterMap,
      memberItem?_prune scope hk]

theorem structItems_prune (scope : Scope) {c : Cursor} (h : c.node.isSealed = false) :
    structItems src scope c.prune = (structItems src scope c).map Item.prune := by
  simp only [structItems, Cursor.node_prune, fieldText?_prune h]
  split
  · rfl
  · simp only [field?_prune h, Cursor.field?_prune h, signature_prune, declaration_prune,
      Option.filter_map, Function.comp_def, Cursor.node_prune, kind_prune, List.map_cons,
      prune_declaration]
    refine congrArg _ (members_prune _ (by decide) fun b hb => ?_)
    exact (Cursor.leads_of_field? (Option.filter_eq_some_iff.mp hb).1).2

theorem enumItems_prune (scope : Scope) {c : Cursor} (h : c.node.isSealed = false) :
    enumItems src scope c.prune = (enumItems src scope c).map Item.prune := by
  simp only [enumItems, Cursor.node_prune, fieldText?_prune h]
  split
  · rfl
  · simp only [field?_prune h, Cursor.field?_prune h, signature_prune, declaration_prune,
      List.map_cons, prune_declaration]
    exact congrArg _ (members_prune _ (by decide) fun b hb => (Cursor.leads_of_field? hb).2)

theorem supertraits_prune (child : String) {t : Tree} (h : t.isSealed = false) :
    supertraits src child t.prune = (supertraits src child t).map Item.prune := by
  simp only [supertraits, fieldText?_prune h]
  split
  · rfl
  · simp [List.map_flatMap]

theorem traitItems_prune (scope : Scope) {c : Cursor} (h : c.node.isSealed = false) :
    traitItems src scope c.prune = (traitItems src scope c).map Item.prune := by
  simp only [traitItems, Cursor.node_prune, fieldText?_prune h]
  split
  · rfl
  · simp [field?_prune h, signature_prune, supertraits_prune _ h, Cursor.field?_prune h]

theorem implItems_prune (scope : Scope) {c : Cursor} (h : c.node.isSealed = false) :
    implItems src scope c.prune = (implItems src scope c).map Item.prune := by
  simp only [implItems, Cursor.node_prune, fieldText?_prune h, Cursor.field?_prune h]
  split
  · rfl
  · split
    · rfl
    · rw [List.map_append, Item.map_prune_within]
      split
      · rfl
      · rw [Item.map_prune_inherit]

theorem moduleItems_prune (scope : Scope) {c : Cursor} (h : c.node.isSealed = false) :
    moduleItems src scope c.prune = (moduleItems src scope c).map Item.prune := by
  simp only [moduleItems, Cursor.node_prune, fieldText?_prune h]
  split
  · rfl
  · simp [field?_prune h, signature_prune, Cursor.field?_prune h]

theorem constantItems_prune (scope : Scope) {c : Cursor} (h : c.node.isSealed = false) :
    constantItems src scope c.prune = (constantItems src scope c).map Item.prune := by
  simp [constantItems, fieldText?_prune h, field?_prune h, signature_prune, Function.comp_def]

theorem typeAliasItems_prune (scope : Scope) {c : Cursor} (h : c.node.isSealed = false) :
    typeAliasItems src scope c.prune = (typeAliasItems src scope c).map Item.prune := by
  have hsignature : signature src c.node.prune none = signature src c.node none :=
    signature_prune c.node none
  simp [typeAliasItems, fieldText?_prune h, hsignature, Function.comp_def]

theorem useItems_prune {t : Tree} (h : t.isSealed = false) :
    useItems src t.prune = (useItems src t).map Item.prune := by
  simp only [useItems, fieldText?_prune h]
  split
  · rfl
  · simp

theorem externItems_prune {t : Tree} (h : t.isSealed = false) :
    externItems src t.prune = (externItems src t).map Item.prune := by
  simp [externItems, fieldText?_prune h, Function.comp_def]

theorem blind_rule : (rule src).Blind := by
  intro scope c h
  simp only [rule, Cursor.node_prune, kind_prune]
  split
  · exact useItems_prune h
  · exact externItems_prune h
  iterate 2 · exact routineItems_prune scope h
  iterate 2 · exact structItems_prune scope h
  · exact enumItems_prune scope h
  · exact traitItems_prune scope h
  · exact implItems_prune scope h
  · exact moduleItems_prune scope h
  iterate 2
    · split
      · rfl
      · exact constantItems_prune scope h
  iterate 2 · exact typeAliasItems_prune scope h
  · rfl

theorem callOf_prune (target : Tree) (arguments : Nat) :
    callOf src target.prune arguments = callOf src target arguments := by
  have hhead : ∀ s : Tree, isHead s.prune = isHead s := by simp [isHead]
  simp only [callOf, kind_prune, text_prune]
  split
  · rfl
  · next hkind => simp only [fieldText?_prune (isSealed_of_kind hkind (by decide))]
  · rw [isChain_prune hhead (by decide)]
  · rfl

theorem target?_prune {t : Tree} (h : t.isSealed = false) :
    target? t.prune = (target? t).map prune := by
  simp only [target?, field?_prune h]
  cases t.field? "function" with
  | none => rfl
  | some function =>
    simp only [Option.map_some, kind_prune, beq_iff_eq]
    split
    · next hkind => exact field?_prune (isSealed_of_kind hkind (by decide)) "function"
    · rfl

theorem site?_prune (modules : List String) {t : Tree} (h : t.isError = false) :
    site? src modules t.prune = site? src modules t := by
  have hopen := isSealed_of_isError h
  simp only [site?, kind_prune, target?_prune hopen, fieldText?_prune hopen,
    CallSite.countArguments_field?_prune hopen, Option.map_map, Function.comp_def, callOf_prune]

theorem blind_dialect : dialect.Blind where
  docstring _ _ h := by simp only [dialect, children_prune h, innerDocs_map_prune]
  rule _ := blind_rule
  isLocal _ := local_rule
  site? _ modules _ h := site?_prune modules h

/-! ## Calls of paths -/

def fieldPath : PathSyntax := ⟨"call_expression", "field_expression", "value", .dot⟩

def scopedPath : PathSyntax := ⟨"call_expression", "scoped_identifier", "path", .colons⟩

theorem site?_of_kind {c t : Tree} (hcall : c.kind = "call_expression")
    (htarget : c.field? "function" = some t) (hkind : t.kind ≠ "generic_function")
    (modules : List String) :
    site? src modules c =
      some (callOf src t (CallSite.countArguments (c.field? "arguments"))) := by
  simp [site?, hcall, target?, htarget, hkind]

/-- A path of fields is called as it is written. -/
theorem site?_of_callsPath_fieldPath {c : Tree} {head : String} {members : List Member}
    (h : CallsPath fieldPath src c head members) (modules : List String) :
    ∃ site, site? src modules c = some site ∧
      site.callee = some (head ++ Member.writtenAll "." members) := by
  obtain ⟨hcall, ⟨t, htarget, hspells⟩, hpicks⟩ := h
  have hkind : t.kind = "field_expression" := hspells.kind_eq hpicks
  have hchain : t.isChain isHead ["field_expression"] "value" = true :=
    hspells.isChain fun s hs => by simp [isHead, hs]
  refine ⟨_, site?_of_kind hcall htarget (by simp [hkind]) modules, ?_⟩
  simp [callOf, hkind, hchain, CallSite.direct, hspells.text_eq, PathSyntax.separator,
    fieldPath, Separator.text]

/-- A path of modules is called as it is written. -/
theorem site?_of_callsPath_scopedPath {c : Tree} {head : String} {members : List Member}
    (h : CallsPath scopedPath src c head members) (modules : List String) :
    ∃ site, site? src modules c = some site ∧
      site.callee = some (head ++ Member.writtenAll "::" members) := by
  obtain ⟨hcall, ⟨t, htarget, hspells⟩, hpicks⟩ := h
  have hkind : t.kind = "scoped_identifier" := hspells.kind_eq hpicks
  refine ⟨_, site?_of_kind hcall htarget (by simp [hkind]) modules, ?_⟩
  simp [callOf, hkind, CallSite.direct, hspells.dropTypeArguments_text,
    PathSyntax.separator, scopedPath, Separator.text]

/-! ## Targets of calls -/

/-- The part of a call that names its target. -/
def namePart? (t : Tree) : Option Tree :=
  match t.kind with
  | "struct_expression" => t.field? "name"
  | _ => target? t

theorem pathCallKind_ne_dynamic (path name : String) : pathCallKind path name ≠ .dynamic := by
  simp only [pathCallKind]
  split_ifs <;> simp

theorem describes_callOf {t target : Tree} {part : Option Tree} {arguments : Nat}
    (htarget : target ∈ part) (hcounts : CallSite.Counts t arguments) :
    (callOf src target arguments).Describes src t part := by
  simp only [callOf]
  split
  · refine .direct ?_ (fun hpart => (hpart target htarget).ne_empty) hcounts
    split <;> simp
  · refine .direct (pathCallKind_ne_dynamic _ _) (fun hpart => ?_) hcounts
    exact (hpart target htarget).dropTypeArguments_ne_empty
  · split
    · exact .direct (by simp) (fun hpart => (hpart target htarget).ne_empty) hcounts
    · exact .dynamic hcounts
  · exact .dynamic hcounts

theorem describes_site (modules : List String) {t : Tree} {site : CallSite}
    (h : site? src modules t = some site) : site.Describes src t (namePart? t) := by
  simp only [site?, fieldText?, Option.map_map] at h
  split at h
  · next hkind =>
    obtain ⟨target, htarget, rfl⟩ := Option.map_eq_some_iff.mp h
    refine describes_callOf ?_ (CallSite.counts_field? t "arguments")
    simpa [namePart?, hkind] using htarget
  · next hkind =>
    obtain ⟨name, hname, rfl⟩ := Option.map_eq_some_iff.mp h
    have hpart : name ∈ namePart? t := by simpa [namePart?, hkind] using hname
    exact .direct (by simp) (fun h => (h name hpart).dropTypeArguments_ne_empty)
      (CallSite.counts_field? t "body")
  · cases h

end CodeOutline.Rust
