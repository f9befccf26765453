import CodeOutline.Proofs.Callers

/-!
# Source order

The calls and the symbols of a file come in the order of the source.

**Theorem (`contents_in_source_order`).** In a well-nested tree there is one call for each exposed
node that is recognised as a call, and the nodes begin in order. The symbols begin in order too,
given that the parts of each node stand in the order in which the language takes them.

A node is *exposed* when it stands below the root and neither it nor a node between it and the root
is an `ERROR` node. `lineages` lists the nodes with those above them, so this can be read off. The
walk that collects calls does not look at what is above a node: it turns back at `ERROR` nodes. Both
come to the same nodes (`exposed_eq_clearOf`).
-/

namespace CodeOutline

open CodeOutline.Tree

namespace Tree

/-! ## Exposed nodes -/

mutual

/-- The nodes of a tree in preorder, each with the nodes above it, nearest first. Those above the
tree itself are given. -/
def lineages (above : List Tree) : Tree → List (Tree × List Tree)
  | node label children =>
    (node label children, above) :: lineagesOf (node label children :: above) children

/-- The nodes of a list of trees, with the nodes above them. -/
def lineagesOf (above : List Tree) : List Tree → List (Tree × List Tree)
  | [] => []
  | t :: ts => t.lineages above ++ lineagesOf above ts

end

/-- Neither the node nor one above it is an `ERROR` node. -/
def isExposed (lineage : Tree × List Tree) : Bool :=
  !lineage.1.isError && lineage.2.all fun t => !t.isError

/-- The exposed nodes below the root, in preorder. -/
def exposed (root : Tree) : List Tree :=
  ((lineagesOf [] root.children).filter isExposed).map (·.1)

theorem lineagesOf_eq_flatMap (above ts : List Tree) :
    lineagesOf above ts = ts.flatMap (lineages above) := by
  induction ts with
  | nil => rfl
  | cons t ts ih => rw [lineagesOf, ih, List.flatMap_cons]

theorem lineages_eq_cons (above : List Tree) (t : Tree) :
    t.lineages above = (t, above) :: t.children.flatMap (lineages (t :: above)) := by
  obtain ⟨label, children⟩ := t
  rw [lineages, lineagesOf_eq_flatMap, children_node]

/-- Every node has one lineage. -/
theorem map_fst_lineages (above : List Tree) (t : Tree) :
    (t.lineages above).map (·.1) = t.nodes := by
  induction t generalizing above with
  | node label children ih =>
    rw [lineages_eq_cons, nodes_eq_cons, List.map_cons, List.map_flatMap]
    congr 1
    exact List.flatMap_congr fun c hc => ih c hc _

/-- What is exposed in a tree is what is clear in it, and nothing if there is an `ERROR` node above
it. -/
theorem map_fst_filter_lineages (above : List Tree) (t : Tree) :
    ((t.lineages above).filter isExposed).map (·.1) =
      if above.all fun a => !a.isError then t.clear else [] := by
  induction t generalizing above with
  | node label children ih =>
    have hchildren : ∀ above : List Tree,
        ((children.flatMap (lineages above)).filter isExposed).map (·.1) =
          if above.all fun a => !a.isError then children.flatMap clear else [] := by
      intro above
      rw [List.filter_flatMap, List.map_flatMap, List.flatMap_congr fun c hc => ih c hc above]
      split
      · rfl
      · exact List.flatMap_eq_nil_iff.mpr fun _ _ => rfl
    rw [lineages_eq_cons, clear_eq, clearOf_eq_flatMap, List.filter_cons]
    cases habove : above.all fun a => !a.isError with
    | false => simp [isExposed, hchildren, habove]
    | true =>
      cases herror : (node label children).isError <;> simp [isExposed, hchildren, herror, habove]

theorem exposed_eq_clearOf (root : Tree) : root.exposed = clearOf root.children := by
  rw [exposed, lineagesOf_eq_flatMap, clearOf_eq_flatMap, List.filter_flatMap, List.map_flatMap]
  exact List.flatMap_congr fun c _ => map_fst_filter_lineages [] c

theorem exposed_sublist (root : Tree) : root.exposed.Sublist root.nodes := by
  have hbelow : (lineagesOf [] root.children).map (·.1) = root.children.flatMap nodes := by
    rw [lineagesOf_eq_flatMap, List.map_flatMap]
    exact List.flatMap_congr fun c _ => map_fst_lineages [] c
  rw [nodes_eq_cons, ← hbelow]
  exact (List.filter_sublist.map _).cons root

/-- The nodes of a well-nested tree begin in order. -/
theorem WellNested.ascending_nodes {t : Tree} (h : t.WellNested) :
    Ascending t.start t.stop (t.nodes.map fun s => (s.start, s.start)) := by
  induction t with
  | node label children ih =>
    rw [nodes_eq_cons, List.map_cons, List.map_flatMap]
    refine ⟨Nat.le_refl _, Nat.le_refl _, h.ascending_children.flatMap fun c hc => ?_⟩
    exact ih c hc (h.of_mem (mem_nodes_of_mem_children hc))

theorem WellNested.pairwise_exposed {root : Tree} (h : root.WellNested) :
    root.exposed.Pairwise fun s t => s.start ≤ t.start := by
  have hnodes := h.ascending_nodes.pairwise
  rw [List.pairwise_map] at hnodes
  exact hnodes.sublist root.exposed_sublist

end Tree

/-! ## Calls -/

/-- What a node of a file shows of a call, if it is recognised as one. -/
def Language.callSite? (l : Language) (src : String) (root : Tree) : Tree → Option CallSite :=
  l.dialect.site? src (l.dialect.moduleNames (l.contents src root).imports)

theorem map_fst_callSites (site? : Tree → Option CallSite) (root : Tree) :
    (callSites site? root).map (·.1) = root.exposed.filter fun t => (site? t).isSome := by
  rw [callSites, exposed_eq_clearOf, List.map_filterMap, ← List.filterMap_eq_filter]
  congr 1
  funext t
  cases hsite : site? t <;> simp [Option.guard, hsite]

variable {src : String} {root : Tree}

/-- The calls of a file stand at its call sites. Resolving references changes callees only. -/
theorem Language.calls_eq_map (l : Language) :
    (l.contents src root).calls =
      (callSites (l.callSite? src root) root).map fun (t, site) =>
        let call := site.callAt src (l.dialect.callers src root) t
        let resolver := Resolver.ofContents l (l.dialect.contents src root)
        { call with callee := call.callee.map resolver.resolve } := by
  let resolver := Resolver.ofContents l (l.dialect.contents src root)
  have hcalls : (l.contents src root).calls =
      (collectCalls src (l.dialect.callers src root) (l.callSite? src root) root).map
        fun call => { call with callee := call.callee.map resolver.resolve } := rfl
  rw [hcalls, collectCalls_eq_map, List.map_map]
  rfl

theorem pairwise_callSites (site? : Tree → Option CallSite) (hwell : root.WellNested) :
    (callSites site? root).Pairwise fun a b => a.1.start ≤ b.1.start := by
  have hnodes : ((callSites site? root).map (·.1)).Pairwise fun s t => s.start ≤ t.start := by
    rw [map_fst_callSites]
    exact hwell.pairwise_exposed.sublist List.filter_sublist
  rw [List.pairwise_map] at hnodes
  exact hnodes

theorem mem_callSites {site? : Tree → Option CallSite} {t : Tree} {site : CallSite} :
    (t, site) ∈ callSites site? root ↔ t ∈ root.exposed ∧ site? t = some site := by
  rw [callSites, ← exposed_eq_clearOf, List.mem_filterMap]
  simp only [Option.map_eq_some_iff, Prod.mk.injEq]
  constructor
  · rintro ⟨s, hs, found, hfound, rfl, rfl⟩
    exact ⟨hs, hfound⟩
  · rintro ⟨ht, hsite⟩
    exact ⟨t, ht, site, hsite, rfl, rfl⟩

/-- There is one call for each exposed node that is recognised as a call. It is what the node shows,
with the callee resolved. -/
theorem Language.forall₂_callSites (l : Language) :
    List.Forall₂
      (fun t call => t ∈ root.nodes ∧ ∃ site, l.callSite? src root t = some site ∧
        let written := site.callAt src (l.dialect.callers src root) t
        let resolver := Resolver.ofContents l (l.dialect.contents src root)
        call = { written with callee := written.callee.map resolver.resolve })
      (root.exposed.filter fun t => (l.callSite? src root t).isSome)
      (l.contents src root).calls := by
  rw [← map_fst_callSites, l.calls_eq_map, List.forall₂_map_left_iff,
    List.forall₂_map_right_iff, List.forall₂_same]
  rintro ⟨t, site⟩ hmem
  obtain ⟨ht, hsite⟩ := mem_callSites.mp hmem
  exact ⟨root.exposed_sublist.subset ht, site, hsite, rfl⟩

theorem Language.forall₂_calls (l : Language) :
    List.Forall₂
      (fun t call => t ∈ root.nodes ∧ ∃ site, l.callSite? src root t = some site ∧
        call.line = t.startRow src + 1 ∧ call.kind = site.kind ∧ call.arguments = site.arguments)
      (root.exposed.filter fun t => (l.callSite? src root t).isSome)
      (l.contents src root).calls := by
  refine l.forall₂_callSites.imp ?_
  rintro t call ⟨ht, site, hsite, rfl⟩
  exact ⟨ht, site, hsite, rfl, rfl, rfl⟩

/-! ## Symbols -/

theorem Language.pairwise_declared (l : Language) (hwell : root.WellNested)
    (horderly : ∀ t ∈ root.nodes, l.Orderly t) :
    (l.dialect.declared src root).Pairwise fun a b => a.start ≤ b.start :=
  forward_rule.ascending_findings local_rule hwell horderly

theorem Language.lineStart_le_lineStart {l : Language} {a b : Declared}
    (ha : a ∈ l.dialect.declared src root) (hb : b ∈ l.dialect.declared src root)
    (h : a.start ≤ b.start) : a.symbol.lineStart ≤ b.symbol.lineStart := by
  obtain ⟨s, _, hs⟩ := spans_of_mem_declared ha
  obtain ⟨t, _, ht⟩ := spans_of_mem_declared hb
  rw [hs.lineStart, ht.lineStart]
  rw [hs.start, ht.start] at h
  exact Nat.succ_le_succ (Source.rowAt_mono src h)

/-! ## The order of a file -/

/-- **Source order.** The calls of a file stand for the exposed nodes that are recognised as calls,
one for each, in the order in which the nodes begin. The symbols come in the order of their first
lines if the parts of each node stand in the order in which the language takes them. -/
theorem contents_in_source_order (l : Language) (src : String) {root : Tree}
    (hwell : root.WellNested) :
    List.Forall₂
      (fun t call => ∃ site, l.callSite? src root t = some site ∧
        call.line = t.startRow src + 1 ∧ call.kind = site.kind ∧ call.arguments = site.arguments)
      (root.exposed.filter fun t => (l.callSite? src root t).isSome)
      (l.contents src root).calls ∧
    (root.exposed.filter fun t => (l.callSite? src root t).isSome).Pairwise
      (fun s t => s.start ≤ t.start) ∧
    (l.contents src root).calls.Pairwise (fun a b => a.line ≤ b.line) ∧
    ((∀ t ∈ root.nodes, l.Orderly t) →
      (l.contents src root).symbols.Pairwise fun a b => a.lineStart ≤ b.lineStart) := by
  have hsites := pairwise_callSites (l.callSite? src root) hwell
  refine ⟨l.forall₂_calls.imp fun t call h => h.2,
    hwell.pairwise_exposed.sublist List.filter_sublist, ?_, fun horderly => ?_⟩
  · rw [l.calls_eq_map, List.pairwise_map]
    exact hsites.imp fun h => Nat.succ_le_succ (Source.rowAt_mono src h)
  · have hsymbols : (l.contents src root).symbols =
        (l.dialect.declared src root).map (·.symbol) := rfl
    rw [hsymbols, List.pairwise_map]
    refine (l.pairwise_declared hwell horderly).imp_of_mem fun ha hb h => ?_
    exact Language.lineStart_le_lineStart ha hb h

/-- A record with one parameter and a method that calls `g`, over five lines. -/
def recordWithCall : Tree :=
  .node ⟨"program", true, false, false, none, 0, 48⟩
    [.node ⟨"record_declaration", true, false, false, none, 0, 48⟩
      [.node ⟨"identifier", true, false, false, some "name", 7, 8⟩ [],
        .node ⟨"formal_parameters", true, false, false, some "parameters", 8, 15⟩
          [.node ⟨"formal_parameter", true, false, false, none, 9, 14⟩
            [.node ⟨"identifier", true, false, false, some "name", 13, 14⟩ []]],
        .node ⟨"class_body", true, false, false, some "body", 16, 48⟩
          [.node ⟨"method_declaration", true, false, false, none, 19, 46⟩
            [.node ⟨"identifier", true, false, false, some "name", 23, 24⟩ [],
              .node ⟨"block", true, false, false, some "body", 27, 46⟩
                [.node ⟨"method_invocation", true, false, false, none, 38, 42⟩
                  [.node ⟨"identifier", true, false, false, some "name", 38, 39⟩ []]]]]]]

/-- The record comes first, then its parameter, then the method. -/
theorem sourceOrder_recordWithCall :
    let src := "record P(int x) \x7b\n int f() \x7b\n  return g(x);\n \x7d\n\x7d"
    let contents := Language.java.contents src recordWithCall
    recordWithCall.WellNested ∧ (∀ t ∈ recordWithCall.nodes, Language.java.Orderly t) ∧
      contents.symbols.map (fun s => (s.name, s.lineStart)) = [("P", 1), ("P.x", 1), ("P.f", 2)] ∧
      contents.calls.map (fun c => (c.callee, c.line)) = [(some "g", 3)] ∧
      contents.calls.Pairwise (fun a b => a.line ≤ b.line) ∧
      contents.symbols.Pairwise fun a b => a.lineStart ≤ b.lineStart := by
  intro src contents
  have hwell : recordWithCall.WellNested := by decide
  have horderly : ∀ t ∈ recordWithCall.nodes, Language.java.Orderly t := by decide
  obtain ⟨_, _, hcalls, hsymbols⟩ := contents_in_source_order .java src hwell
  exact ⟨hwell, horderly, by decide +kernel, by decide +kernel, hcalls, hsymbols horderly⟩

end CodeOutline
