import CodeOutline.Dialect.Go
import CodeOutline.Proofs.Edges
import CodeOutline.Proofs.Enclosure
import CodeOutline.Proofs.OneLine
import CodeOutline.Proofs.Ordering
import CodeOutline.Proofs.Paths
import CodeOutline.Proofs.Pruning
import CodeOutline.Proofs.Targets

/-!
# Facts about Go

All that is listed for a declaration lies at or below it, in the order of the source, and nothing
hangs on what is below sealed nodes. Methods stand beside the type of their receiver and not inside
it, so no more is said of the scopes. What a type embeds is a parent of it. Heads stand on one line.
-/

namespace CodeOutline.Go

open CodeOutline.Tree

variable {src : String}

/-! ## Spans -/

section Spans

variable {t : Tree} {item : Item}

theorem local_of_mem_fieldItems {owner : String} {c : Cursor} (hc : c.node ∈ t.nodes)
    (h : item ∈ fieldItems src owner c) : item.Local src t := by
  unfold fieldItems at h
  split at h
  · split at h
    · simp at h
    · exact Item.local_of_mem_inherit h
  · obtain ⟨n, _, rfl⟩ := List.mem_map.mp h
    exact Item.local_declare hc ..

theorem local_of_mem_structItems {owner : String} {type : Cursor} (htype : type.node ∈ t.nodes)
    (h : item ∈ structItems src owner type) : item.Local src t := by
  unfold structItems at h
  split at h
  · simp at h
  · next list hlist =>
    obtain ⟨f, hf, h⟩ := List.mem_flatMap.mp h
    have hlist := (Cursor.leads_of_ofKind? hlist (by decide)).1
    have hf := Cursor.mem_nodes_of_mem_namedChildren (List.mem_filter.mp hf).1
    exact local_of_mem_fieldItems (mem_nodes_trans hf (mem_nodes_trans hlist htype)) h

theorem local_of_mem_elementItems {owner : String} {c : Cursor} (hc : c.node ∈ t.nodes)
    (h : item ∈ elementItems src owner c) : item.Local src t := by
  unfold elementItems at h
  split at h
  iterate 2
    · obtain ⟨name, _, rfl⟩ := List.mem_map.mp h
      exact Item.local_declare hc ..
  iterate 3
    · simp only at h
      split at h
      · simp at h
      · exact Item.local_of_mem_inherit h
  · simp at h

theorem local_of_mem_memberItems {owner : String} {type : Cursor} (htype : type.node ∈ t.nodes)
    (h : item ∈ memberItems src owner type) : item.Local src t := by
  unfold memberItems at h
  split at h
  · exact local_of_mem_structItems htype h
  · obtain ⟨c, hc, h⟩ := List.mem_flatMap.mp h
    have hc := Cursor.mem_nodes_of_mem_namedChildren hc
    exact local_of_mem_elementItems (mem_nodes_trans hc htype) h
  · simp at h

theorem span_mem_nodes {declaration spec : Cursor} (hspec : spec.node ∈ declaration.node.nodes) :
    span declaration spec ∈ declaration.node.nodes := by
  unfold span
  split
  · exact self_mem_nodes _
  · exact hspec

theorem local_of_mem_typeItems {declaration spec : Cursor}
    (hspec : spec.node ∈ declaration.node.nodes) (h : item ∈ typeItems src declaration spec) :
    item.Local src declaration.node := by
  unfold typeItems at h
  split at h
  · next name type _ htype =>
    rcases List.mem_cons.mp h with rfl | h
    · exact Item.local_declare (span_mem_nodes hspec) ..
    · exact local_of_mem_memberItems (mem_nodes_trans (Cursor.leads_of_field? htype).1 hspec) h
  · simp at h

theorem valueSpecs_eq_flatMap (c : Cursor) :
    valueSpecs c = c.namedChildren.flatMap fun spec =>
      match spec.node.kind with
      | "const_spec" | "var_spec" => [spec]
      | "var_spec_list" => valueSpecs spec
      | _ => [] := by
  conv_rhs => rw [← List.attach_map_subtype_val c.namedChildren, List.flatMap_map]
  exact valueSpecs.eq_1 c

theorem mem_nodes_of_mem_valueSpecs {c spec : Cursor} (h : spec ∈ valueSpecs c) :
    spec.node ∈ c.node.nodes := by
  fun_induction valueSpecs c with
  | case1 c ih =>
    obtain ⟨⟨child, hchild⟩, _, h⟩ := List.mem_flatMap.mp h
    have hin := Cursor.mem_nodes_of_mem_namedChildren hchild
    simp only at h
    split at h
    iterate 2
      · obtain rfl := List.mem_singleton.mp h
        exact hin
    · exact mem_nodes_trans (ih child hchild h) hin
    · simp at h

theorem local_of_mem_valueItems {declaration spec : Cursor}
    (hspec : spec.node ∈ declaration.node.nodes) (h : item ∈ valueItems src declaration spec) :
    item.Local src declaration.node := by
  obtain ⟨name, _, rfl⟩ := List.mem_map.mp h
  exact Item.local_declare (span_mem_nodes hspec) ..

theorem local_of_importItem? {spec : Tree} (h : importItem? src spec = some item) :
    item.Local src t := by
  obtain ⟨path, _, rfl⟩ := Option.map_eq_some_iff.mp h
  trivial

theorem local_of_mem_importItems {statement : Tree} (h : item ∈ importItems src statement) :
    item.Local src t := by
  obtain ⟨child, _, h⟩ := List.mem_flatMap.mp h
  split at h
  · exact local_of_importItem? (Option.mem_toList.mp h)
  · obtain ⟨spec, _, h⟩ := List.mem_filterMap.mp h
    exact local_of_importItem? h
  · simp at h

end Spans

theorem local_rule : (rule src).Local src := by
  intro scope c hopen item hitem
  unfold rule at hitem
  split at hitem
  · obtain ⟨name, _, rfl⟩ := List.mem_map.mp hitem
    trivial
  · exact local_of_mem_importItems hitem
  · obtain ⟨name, _, rfl⟩ := List.mem_map.mp hitem
    exact Item.local_declare (self_mem_nodes _) ..
  · obtain ⟨name, _, rfl⟩ := List.mem_map.mp hitem
    exact Item.local_declare (self_mem_nodes _) ..
  · obtain ⟨spec, hspec, hitem⟩ := List.mem_flatMap.mp hitem
    have hspec := Cursor.mem_nodes_of_mem_namedChildren (List.mem_filter.mp hspec).1
    exact local_of_mem_typeItems hspec hitem
  iterate 2
    · obtain ⟨spec, hspec, hitem⟩ := List.mem_flatMap.mp hitem
      exact local_of_mem_valueItems (mem_nodes_of_mem_valueSpecs hspec) hitem
  · simp at hitem

/-! ## Source order -/

section Order

variable {owner : String} {c type declaration spec : Cursor} {specs : List Cursor}

theorem inOrder_fieldItems (hle : c.node.start ≤ c.node.stop) :
    InOrder c.node.start c.node.stop (fieldItems src owner c) := by
  unfold fieldItems
  split
  · split
    · exact .nil hle
    · exact .silent (.inherit _ _) hle
  · exact .map hle fun _ => Item.declaredBy_declare ..

theorem inOrder_structItems (hwell : type.node.WellNested) :
    InOrder type.node.start type.node.stop (structItems src owner type) := by
  unfold structItems
  split
  · exact .nil hwell.start_le_stop
  · next list hlist =>
    have hin := (Cursor.leads_of_ofKind? hlist (by decide)).1
    have hfields := Cursor.ascending_namedChildren (hwell.of_mem hin)
    refine .of_mem hwell hin (.flatMap (hfields.sublist (List.filter_sublist.map _)) ?_)
    intro f hf
    have hfin := Cursor.mem_nodes_of_mem_namedChildren (List.mem_filter.mp hf).1
    exact inOrder_fieldItems ((hwell.of_mem hin).of_mem hfin).start_le_stop

theorem inOrder_elementItems (hle : c.node.start ≤ c.node.stop) :
    InOrder c.node.start c.node.stop (elementItems src owner c) := by
  unfold elementItems
  split
  iterate 2
    · exact .map hle fun _ => Item.declaredBy_declare ..
  iterate 3
    · simp only
      split
      · exact .nil hle
      · exact .silent (.inherit _ _) hle
  · exact .nil hle

theorem inOrder_memberItems (hwell : type.node.WellNested) :
    InOrder type.node.start type.node.stop (memberItems src owner type) := by
  unfold memberItems
  split
  · exact inOrder_structItems hwell
  · refine .flatMap (Cursor.ascending_namedChildren hwell) fun element helement => ?_
    have hin := Cursor.mem_nodes_of_mem_namedChildren helement
    exact inOrder_elementItems (hwell.of_mem hin).start_le_stop
  · exact .nil hwell.start_le_stop

theorem mem_nodes_span (hspec : spec.node ∈ declaration.node.nodes) :
    spec.node ∈ (span declaration spec).nodes := by
  unfold span
  split
  · exact hspec
  · exact self_mem_nodes _

theorem inOrder_typeItems (hwell : declaration.node.WellNested)
    (hspec : spec.node ∈ declaration.node.nodes) :
    InOrder (span declaration spec).start (span declaration spec).stop
      (typeItems src declaration spec) := by
  have hspan := hwell.of_mem (span_mem_nodes hspec)
  unfold typeItems
  split
  · next name type _ htype =>
    have hin := mem_nodes_trans (Cursor.leads_of_field? htype).1 (mem_nodes_span hspec)
    exact .declare (.of_mem hspan hin (inOrder_memberItems (hspan.of_mem hin)))
  · exact .nil hspan.start_le_stop

theorem inOrder_valueItems (hle : (span declaration spec).start ≤ (span declaration spec).stop) :
    InOrder (span declaration spec).start (span declaration spec).stop
      (valueItems src declaration spec) := by
  exact .map hle fun _ => Item.declaredBy_declare ..

/-! ### Specifications

A specification covers the whole declaration only where it is the only one, so what the
specifications of a declaration cover comes one after another as they do. -/

theorem depth_of_mem_childrenFrom {before todo : List Tree}
    (h : spec ∈ c.childrenFrom before todo) : spec.depth = c.depth + 1 := by
  induction todo generalizing before with
  | nil => cases h
  | cons t todo ih =>
    rcases List.mem_cons.mp h with rfl | h
    · rfl
    · exact ih h

theorem depth_of_mem_namedChildren (h : spec ∈ c.namedChildren) : spec.depth = c.depth + 1 :=
  depth_of_mem_childrenFrom (List.mem_filter.mp h).1

theorem depth_lt_of_mem_valueSpecs (h : spec ∈ valueSpecs c) : c.depth < spec.depth := by
  induction c using valueSpecs.induct with
  | case1 c ih =>
    rw [valueSpecs_eq_flatMap] at h
    obtain ⟨child, hchild, h⟩ := List.mem_flatMap.mp h
    have hdepth := depth_of_mem_namedChildren hchild
    split at h
    iterate 2
      · obtain rfl := List.mem_singleton.mp h
        omega
    · have hbelow := ih child hchild h
      omega
    · cases h

theorem length_namedChildren (c : Cursor) :
    c.namedChildren.length = c.node.namedChildren.length := by
  rw [← Cursor.map_node_namedChildren, List.length_map]

theorem span_of_length_ne (h : declaration.node.namedChildren.length ≠ 1) :
    span declaration spec = spec.node :=
  if_neg fun hspan => h hspan.2

theorem span_of_depth_lt (h : declaration.depth + 1 < spec.depth) :
    span declaration spec = spec.node :=
  if_neg fun hspan => absurd hspan.1 (Nat.ne_of_gt h)

theorem ascending_spans (hwell : c.node.WellNested)
    (hspecs : Ascending c.node.start c.node.stop (specs.map fun s => s.node.range))
    (halone : ∀ s ∈ specs, span c s = s.node ∨ specs = [s]) :
    Ascending c.node.start c.node.stop (specs.map fun s => (span c s).range) := by
  by_cases hsingle : ∃ s, specs = [s]
  · obtain ⟨s, rfl⟩ := hsingle
    rw [List.map_singleton, span]
    split
    · exact ⟨Nat.le_refl _, hwell.start_le_stop, Nat.le_refl _⟩
    · exact hspecs
  · have hspans : (specs.map fun s => (span c s).range) = specs.map fun s => s.node.range := by
      refine List.map_congr_left fun s hs => ?_
      rcases halone s hs with hspan | hone
      · rw [hspan]
      · exact absurd ⟨s, hone⟩ hsingle
    rw [hspans]
    exact hspecs

theorem ascending_typeSpans (hwell : c.node.WellNested) (q : Cursor → Bool) :
    Ascending c.node.start c.node.stop
      ((c.namedChildren.filter q).map fun s => (span c s).range) := by
  have hnamed := Cursor.ascending_namedChildren hwell
  refine ascending_spans hwell (hnamed.sublist (List.filter_sublist.map _)) fun s hs => ?_
  by_cases hlength : c.node.namedChildren.length = 1
  · rw [← length_namedChildren] at hlength
    obtain ⟨child, hchild⟩ := List.length_eq_one_iff.mp hlength
    obtain ⟨hmem, hq⟩ := List.mem_filter.mp hs
    have hone : c.namedChildren = [s] := by
      rw [hchild] at hmem ⊢
      rw [List.mem_singleton.mp hmem]
    rw [hone, List.filter_singleton, hq]
    exact .inr rfl
  · exact .inl (span_of_length_ne hlength)

theorem ascending_valueSpecs (hwell : c.node.WellNested) :
    Ascending c.node.start c.node.stop ((valueSpecs c).map fun s => s.node.range) := by
  induction c using valueSpecs.induct with
  | case1 c ih =>
    rw [valueSpecs_eq_flatMap, List.map_flatMap]
    refine (Cursor.ascending_namedChildren hwell).flatMap fun child hchild => ?_
    have hchildWell := hwell.of_mem (Cursor.mem_nodes_of_mem_namedChildren hchild)
    have hle := hchildWell.start_le_stop
    split
    iterate 2 · exact ⟨Nat.le_refl _, hle, Nat.le_refl _⟩
    · exact ih child hchild hchildWell
    · exact hle

theorem ascending_valueSpans (hwell : c.node.WellNested) :
    Ascending c.node.start c.node.stop ((valueSpecs c).map fun s => (span c s).range) := by
  refine ascending_spans hwell (ascending_valueSpecs hwell) fun s hs => ?_
  by_cases hlength : c.node.namedChildren.length = 1
  · rw [← length_namedChildren] at hlength
    obtain ⟨child, hchild⟩ := List.length_eq_one_iff.mp hlength
    have hdepth : child.depth = c.depth + 1 :=
      depth_of_mem_namedChildren (hchild ▸ List.mem_singleton.mpr rfl)
    rw [valueSpecs_eq_flatMap, hchild, List.flatMap_singleton] at hs ⊢
    split at hs
    iterate 2
      · obtain rfl := List.mem_singleton.mp hs
        exact .inr rfl
    · have hbelow := depth_lt_of_mem_valueSpecs hs
      exact .inl (span_of_depth_lt (hdepth ▸ hbelow))
    · cases hs
  · exact .inl (span_of_length_ne hlength)

theorem silent_importItems (t : Tree) : Silent (importItems src t) := by
  intro item hitem
  obtain ⟨child, _, hitem⟩ := List.mem_flatMap.mp hitem
  split at hitem
  · obtain ⟨path, _, rfl⟩ := Option.map_eq_some_iff.mp (Option.mem_toList.mp hitem)
    rfl
  · obtain ⟨s, _, hitem⟩ := List.mem_filterMap.mp hitem
    obtain ⟨path, _, rfl⟩ := Option.map_eq_some_iff.mp hitem
    rfl
  · cases hitem

end Order

theorem forward_rule : (rule src).Forward fun _ => True := by
  intro scope c hwell _
  have hle := hwell.start_le_stop
  unfold rule
  split
  · exact .silent (.packages _ _) hle
  · exact .silent (silent_importItems _) hle
  iterate 2
    · exact .map hle fun _ => Item.declaredBy_declare ..
  · refine .flatMap (ascending_typeSpans hwell _) fun spec hspec => ?_
    have hin := Cursor.mem_nodes_of_mem_namedChildren (List.mem_filter.mp hspec).1
    exact inOrder_typeItems hwell hin
  iterate 2
    · refine .flatMap (ascending_valueSpans hwell) fun spec hspec => ?_
      have hspan := span_mem_nodes (mem_nodes_of_mem_valueSpecs hspec)
      exact inOrder_valueItems (hwell.of_mem hspan).start_le_stop
  · exact .nil hle

/-! ## Edges -/

/-- The kinds of the symbols that declared types are. -/
def IsNamedType (kind : SymbolKind) : Prop :=
  kind = .structType ∨ kind = .interfaceType ∨ kind = .typeAlias

section Edges

variable {T : String → Prop} {owner : String} {c type declaration spec : Cursor}

theorem edges_fieldItems (h : T owner) : EdgesFrom T (fieldItems src owner c) := by
  unfold fieldItems
  split
  · split
    · exact .nil
    · exact .inherit h _
  · exact .map fun _ => ⟨c.node, Item.declaredBy_declare ..⟩

theorem edges_elementItems (h : T owner) : EdgesFrom T (elementItems src owner c) := by
  simp only [elementItems]
  split
  iterate 2 · exact .map fun _ => ⟨c.node, Item.declaredBy_declare ..⟩
  iterate 3
    · split
      · exact .nil
      · exact .inherit h _
  · exact .nil

theorem edges_memberItems (h : T owner) : EdgesFrom T (memberItems src owner type) := by
  unfold memberItems structItems
  split
  · split
    · exact .nil
    · exact .flatMap fun _ _ => edges_fieldItems h
  · exact .flatMap fun _ _ => edges_elementItems h
  · exact .nil

theorem isNamedType_typeKind (spec type : String) : IsNamedType (typeKind spec type) := by
  unfold typeKind IsNamedType
  split <;> simp

theorem grounded_typeItems : Grounded IsNamedType (typeItems src declaration spec) := by
  unfold typeItems
  split
  · refine .declare (isNamedType_typeKind _ _) (edges_memberItems ?_)
    exact Scope.qualify_nil rfl _
  · exact .of_edgeless .nil

theorem edges_importItems (t : Tree) : EdgesFrom T (importItems src t) := by
  have himport : ∀ s item, importItem? src s = some item → ∀ i, item ≠ .found (.inheritance i) := by
    intro s item hitem i
    obtain ⟨path, _, rfl⟩ := Option.map_eq_some_iff.mp hitem
    exact fun heq => by cases heq
  refine .flatMap fun child _ => .of_forall fun item hitem => ?_
  split at hitem
  · exact himport child item (Option.mem_toList.mp hitem)
  · obtain ⟨s, _, hitem⟩ := List.mem_filterMap.mp hitem
    exact himport s item hitem
  · cases hitem

end Edges

theorem rooted_rule : (rule src).Rooted IsNamedType fun _ => False := by
  refine .of_grounded fun scope c => ?_
  unfold rule
  split
  · exact .of_edgeless (.packages _ _)
  · exact .of_edgeless (edges_importItems _)
  iterate 2 · exact .of_edgeless (.map fun _ => ⟨c.node, Item.declaredBy_declare ..⟩)
  · exact .flatMap fun spec _ => grounded_typeItems
  iterate 2
    · refine .of_edgeless (.flatMap fun spec _ => .map fun _ => ?_)
      exact ⟨span c spec, Item.declaredBy_declare ..⟩
  · exact .of_edgeless .nil

/-! ## Heads -/

section Heads

variable {owner : String} {c type declaration spec : Cursor}

theorem oneLine_fieldItems : OneLineItems (fieldItems src owner c) := by
  unfold fieldItems
  split
  · split
    · exact .nil
    · exact .silent (.inherit _ _)
  · exact .map fun _ => oneLine_headline ..

theorem oneLine_elementItems : OneLineItems (elementItems src owner c) := by
  simp only [elementItems]
  split
  iterate 2 · exact .map fun _ => oneLine_headline ..
  iterate 3
    · split
      · exact .nil
      · exact .silent (.inherit _ _)
  · exact .nil

theorem oneLine_memberItems : OneLineItems (memberItems src owner type) := by
  unfold memberItems structItems
  split
  · split
    · exact .nil
    · exact .flatMap fun _ => oneLine_fieldItems
  · exact .flatMap fun _ => oneLine_elementItems
  · exact .nil

theorem oneLine_typeItems : OneLineItems (typeItems src declaration spec) := by
  simp only [typeItems]
  split
  · refine .cons ?_ oneLine_memberItems
    refine oneLine_word_append src spec.node.start spec.node.stop "type" (by decide) ?_
    split
    · exact (Text.prefix_trimEnd _).trans (Text.prefix_firstPiece _ _)
    · exact List.prefix_rfl
  · exact .nil

theorem oneLine_valueItems : OneLineItems (valueItems src declaration spec) := by
  refine .map fun _ => ?_
  refine oneLine_word_append src _ _ _ ?_ (Text.prefix_dropTerminator ..)
  split <;> decide

end Heads

theorem oneLine_rule : (rule src).OneLine fun _ => True := by
  intro scope c _
  unfold rule
  split
  · exact .silent (.packages _ _)
  · exact .silent (silent_importItems _)
  iterate 2 · exact .map fun _ => oneLine_headline ..
  · exact .flatMap fun _ => oneLine_typeItems
  iterate 2 · exact .flatMap fun _ => oneLine_valueItems
  · exact .nil

/-! ## Sealed nodes -/

@[simp] theorem docstring_prune (c : Cursor) : docstring src c.prune = docstring src c := by
  simp only [docstring, Comments.before_prune, List.map_map, Function.comp_def, text_prune]

theorem receiver?_prune {t : Tree} (h : t.isSealed = false) :
    receiver? src t.prune = receiver? src t := by
  simp only [receiver?, field?_prune h]
  cases hreceiver : t.field? "receiver" with
  | none => rfl
  | some receiver =>
    simp only [Option.map_some, Option.bind_eq_bind, Option.bind_some, List.find?_map,
      namedChildren_prune (isSealed_of_field? hreceiver), Function.comp_def, kind_prune]
    cases hparameter : receiver.namedChildren.find? fun p => p.kind == "parameter_declaration" with
    | none => rfl
    | some parameter =>
      have hkind := List.find?_some hparameter
      have hopen := isSealed_of_kind (by simpa using hkind) (by decide)
      simp [fieldText?_prune hopen]

theorem signature_prune {t : Tree} (h : t.isSealed = false) :
    signature src t.prune = signature src t := by
  simp [signature, field?_prune h]

theorem functionItems_prune {c : Cursor} (h : c.node.isSealed = false) :
    functionItems src c.prune = (functionItems src c).map Item.prune := by
  simp [functionItems, fieldText?_prune h, signature_prune h, Function.comp_def]

theorem methodItems_prune {c : Cursor} (h : c.node.isSealed = false) :
    methodItems src c.prune = (methodItems src c).map Item.prune := by
  simp [methodItems, fieldText?_prune h, receiver?_prune h, signature_prune h, Function.comp_def]

theorem fieldItems_prune (owner : String) {c : Cursor} (h : c.node.isSealed = false) :
    fieldItems src owner c.prune = (fieldItems src owner c).map Item.prune := by
  simp only [fieldItems, Cursor.node_prune, fields_prune h, fieldText?_prune h, field?_prune h,
    start_prune, headlineFrom_prune, docstring_prune, Item.declare_prune]
  cases c.node.fields "name" with
  | nil =>
    simp only [List.map_nil]
    split <;> simp
  | cons name names => simp [Function.comp_def]

theorem structItems_prune (owner : String) {type : Cursor} (h : type.node.isSealed = false) :
    structItems src owner type.prune = (structItems src owner type).map Item.prune := by
  simp only [structItems, Cursor.ofKind?_prune h]
  cases hlist : type.ofKind? "field_declaration_list" with
  | none => rfl
  | some list =>
    have hopen := (Cursor.leads_of_ofKind? hlist (by decide)).2
    simp only [Option.map_some, Cursor.namedChildren_prune hopen, List.filter_map,
      List.flatMap_map, List.map_flatMap, Function.comp_def, Cursor.node_prune, kind_prune]
    refine List.flatMap_congr fun f hf => ?_
    have hkind := (List.mem_filter.mp hf).2
    exact fieldItems_prune owner (isSealed_of_kind (by simpa using hkind) (by decide))

theorem elementItems_prune (owner : String) (c : Cursor) :
    elementItems src owner c.prune = (elementItems src owner c).map Item.prune := by
  simp only [elementItems, Cursor.node_prune, kind_prune, text_prune]
  split
  iterate 2
    · next hkind =>
      simp [fieldText?_prune (isSealed_of_kind hkind (by decide)), Function.comp_def]
  iterate 3 · split <;> simp
  · rfl

theorem memberItems_prune (owner : String) (type : Cursor) :
    memberItems src owner type.prune = (memberItems src owner type).map Item.prune := by
  simp only [memberItems, Cursor.node_prune, kind_prune]
  split
  · next hkind => exact structItems_prune owner (isSealed_of_kind hkind (by decide))
  · next hkind =>
    rw [Cursor.namedChildren_prune (isSealed_of_kind hkind (by decide)), List.flatMap_map,
      List.map_flatMap]
    exact List.flatMap_congr fun c _ => elementItems_prune owner c
  · rfl

theorem span_prune {declaration : Cursor} (h : declaration.node.isSealed = false)
    (spec : Cursor) : span declaration.prune spec.prune = (span declaration spec).prune := by
  simp only [span, Cursor.depth_prune, Cursor.node_prune, namedChildren_prune h, List.length_map]
  split <;> rfl

@[simp] theorem specDocstring_prune (declaration spec : Cursor) :
    specDocstring src declaration.prune spec.prune = specDocstring src declaration spec := by
  simp [specDocstring]

theorem typeItems_prune {declaration spec : Cursor} (h : declaration.node.isSealed = false)
    (hspec : spec.node.isSealed = false) :
    typeItems src declaration.prune spec.prune =
      (typeItems src declaration spec).map Item.prune := by
  simp only [typeItems, Cursor.node_prune, fieldText?_prune hspec, Cursor.field?_prune hspec]
  cases spec.node.fieldText? src "name" with
  | none => rfl
  | some name =>
    cases spec.field? "type" with
    | none => rfl
    | some type => simp [span_prune h, memberItems_prune]

theorem valueSpecs_prune {c : Cursor} (h : c.node.isSealed = false) :
    valueSpecs c.prune = (valueSpecs c).map Cursor.prune := by
  induction c using valueSpecs.induct with
  | case1 c ih =>
    rw [valueSpecs_eq_flatMap, valueSpecs_eq_flatMap, Cursor.namedChildren_prune h,
      List.flatMap_map, List.map_flatMap]
    refine List.flatMap_congr fun spec hspec => ?_
    simp only [Cursor.node_prune, kind_prune]
    split
    iterate 2 · rfl
    · next hkind => exact ih spec hspec (isSealed_of_kind hkind (by decide))
    · rfl

theorem isSealed_of_mem_valueSpecs {c spec : Cursor} (h : spec ∈ valueSpecs c) :
    spec.node.isSealed = false := by
  fun_induction valueSpecs c with
  | case1 c ih =>
    obtain ⟨⟨child, hchild⟩, _, h⟩ := List.mem_flatMap.mp h
    simp only at h
    split at h
    iterate 2
      · next hkind =>
        obtain rfl := List.mem_singleton.mp h
        exact isSealed_of_kind hkind (by decide)
    · exact ih child hchild h
    · simp at h

theorem valueItems_prune {declaration spec : Cursor} (h : declaration.node.isSealed = false)
    (hspec : spec.node.isSealed = false) :
    valueItems src declaration.prune spec.prune =
      (valueItems src declaration spec).map Item.prune := by
  simp [valueItems, field?_prune hspec, fields_prune hspec, span_prune h, Function.comp_def]

theorem importItem?_prune {spec : Tree} (h : spec.isSealed = false) :
    importItem? src spec.prune = importItem? src spec := by
  simp [importItem?, fieldText?_prune h]

theorem map_prune_importItem? (spec : Tree) :
    (importItem? src spec).map Item.prune = importItem? src spec := by
  simp [importItem?, Function.comp_def]

theorem importItems_prune {t : Tree} (h : t.isSealed = false) :
    importItems src t.prune = (importItems src t).map Item.prune := by
  rw [importItems, importItems, namedChildren_prune h, List.flatMap_map, List.map_flatMap]
  refine List.flatMap_congr fun child _ => ?_
  rw [kind_prune]
  split
  · next hkind =>
    have hopen := isSealed_of_kind hkind (by decide)
    rw [importItem?_prune hopen, ← Option.toList_map, map_prune_importItem?]
  · next hkind =>
    rw [namedChildren_prune (isSealed_of_kind hkind (by decide))]
    simp only [List.filter_map, List.filterMap_map, List.map_filterMap, Function.comp_def,
      kind_prune, map_prune_importItem?]
    refine List.filterMap_congr fun spec hspec => ?_
    have hspec := (List.mem_filter.mp hspec).2
    exact importItem?_prune (isSealed_of_kind (by simpa using hspec) (by decide))
  · rfl

theorem packageItems_prune {t : Tree} (h : t.isSealed = false) :
    packageItems src t.prune = (packageItems src t).map Item.prune := by
  simp [packageItems, ofKind?_prune h, Option.toList_map, Function.comp_def]

theorem blind_rule : (rule src).Blind := by
  intro scope c h
  simp only [rule, Cursor.node_prune, kind_prune]
  split
  · exact packageItems_prune h
  · exact importItems_prune h
  · exact functionItems_prune h
  · exact methodItems_prune h
  · simp only [Cursor.namedChildren_prune h, List.filter_map, List.flatMap_map, List.map_flatMap,
      Function.comp_def, Cursor.node_prune, kind_prune]
    refine List.flatMap_congr fun spec hspec => typeItems_prune h ?_
    have hkind := (List.mem_filter.mp hspec).2
    rcases Bool.or_eq_true_iff.mp hkind with hkind | hkind
    iterate 2 · exact isSealed_of_kind (by simpa using hkind) (by decide)
  iterate 2
    · rw [valueSpecs_prune h, List.flatMap_map, List.map_flatMap]
      refine List.flatMap_congr fun spec hspec => ?_
      exact valueItems_prune h (isSealed_of_mem_valueSpecs hspec)
  · rfl

theorem fileDocstring_prune {root : Tree} (h : root.isSealed = false) :
    fileDocstring src root.prune = fileDocstring src root := by
  have hchildren : (Cursor.root root.prune).children =
      (Cursor.root root).children.map Cursor.prune :=
    Cursor.children_prune (c := Cursor.root root) h
  simp [fileDocstring, hchildren, List.filter_map, Option.bind_map, Function.comp_def]

theorem site?_prune (modules : List String) {t : Tree} (h : t.isError = false) :
    site? src modules t.prune = site? src modules t := by
  have hopen := isSealed_of_isError h
  have hhead : ∀ s : Tree, isHead s.prune = isHead s := by simp [isHead]
  simp only [site?, kind_prune, CallSite.countArguments_field?_prune hopen,
    field?_prune hopen "function"]
  split
  · cases htarget : t.field? "function" with
    | none => rfl
    | some target =>
      simp only [Option.map_some, Option.bind_eq_bind, Option.bind_some, kind_prune, text_prune]
      split
      · rfl
      · rw [isChain_prune hhead (by decide), field?_prune (isSealed_of_field? htarget)]
        split
        · simp [selectorCall, Option.bind_map, Function.comp_def]
        · rfl
      · rfl
  · rfl

theorem blind_dialect : dialect.Blind where
  docstring _ _ h := fileDocstring_prune h
  rule _ := blind_rule
  isLocal _ := local_rule
  site? _ modules _ h := site?_prune modules h

/-! ## Calls of paths -/

def selectorPath : PathSyntax := ⟨"call_expression", "selector_expression", "operand", .dot⟩

/-- A path is called as it is written. -/
theorem site?_of_callsPath {c : Tree} {head : String} {members : List Member}
    (h : CallsPath selectorPath src c head members) (modules : List String) :
    ∃ site, site? src modules c = some site ∧
      site.callee = some (head ++ Member.writtenAll "." members) := by
  obtain ⟨hcall, ⟨t, htarget, hspells⟩, hpicks⟩ := h
  have hkind : t.kind = "selector_expression" := hspells.kind_eq hpicks
  have hchain : t.isChain isHead ["selector_expression"] "operand" = true :=
    hspells.isChain fun s hs => by simp [isHead, hs]
  obtain ⟨operand, hoperand⟩ : ∃ operand, t.field? "operand" = some operand :=
    hspells.exists_field? hpicks
  refine ⟨selectorCall src modules t operand (CallSite.countArguments (c.field? "arguments")),
    ?_, ?_⟩
  · simp [site?, hcall, selectorPath, htarget, hkind, hchain, hoperand]
  · exact congrArg some hspells.text_eq

/-! ## Targets of calls -/

/-- The part of a call that names its target. -/
def namePart? (t : Tree) : Option Tree := t.field? "function"

theorem describes_site (modules : List String) {t : Tree} {site : CallSite}
    (h : site? src modules t = some site) : site.Describes src t (namePart? t) := by
  have hcounts := CallSite.counts_field? t "arguments"
  simp only [site?] at h
  split at h
  · obtain ⟨target, htarget, h⟩ := Option.bind_eq_some_iff.mp h
    have hnamed (hpart : ∀ s ∈ namePart? t, Text.HasName (s.text src)) : target.text src ≠ "" :=
      (hpart target htarget).ne_empty
    split at h
    · cases h
      exact .direct (by simp) hnamed hcounts
    · split at h
      · obtain ⟨operand, _, h⟩ := Option.bind_eq_some_iff.mp h
        cases h
        refine .direct ?_ hnamed hcounts
        split <;> simp
      · cases h
        exact .dynamic hcounts
    · cases h
      exact .dynamic hcounts
  · cases h

end CodeOutline.Go
