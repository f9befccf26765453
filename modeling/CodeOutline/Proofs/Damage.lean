import CodeOutline.Damage
import CodeOutline.Proofs.SourceOrder
import Mathlib.Algebra.GroupWithZero.Nat
import Mathlib.Data.Finset.Card

/-!
# Counting damage

The damage of a tree is measured by a walk that looks at few nodes: it turns back at `ERROR` nodes
and at stand-ins, and it does not go below a node that is marked as sound.

**Theorem (`damage_eq_count`).** In a well-nested tree with honest marks, the walk finds what a
count over all nodes finds: the `ERROR` nodes and the stand-ins that have no `ERROR` node above
them, and the bytes that lie in any `ERROR` node.

What the walk skips below a sound node is nothing, since the marks are honest. What it skips below
an `ERROR` node is not to be counted; for the bytes this holds because each `ERROR` node lies inside
an outermost one, and the outermost ones lie one after another (`card_errorOffsets`).
-/

namespace CodeOutline

/-! ## Offsets of ranges -/

/-- The offsets in ranges that ascend are strictly increasing. -/
theorem Ascending.pairwise_offsets {lo hi : Nat} {rs : List (Nat × Nat)} (h : Ascending lo hi rs) :
    (rs.flatMap fun r => List.range' r.1 (r.2 - r.1)).Pairwise (· < ·) ∧
      ∀ offset ∈ rs.flatMap fun r => List.range' r.1 (r.2 - r.1), lo ≤ offset := by
  induction rs generalizing lo with
  | nil => exact ⟨List.Pairwise.nil, by simp⟩
  | cons r rs ih =>
    obtain ⟨hlow, hle, hrest⟩ := h
    obtain ⟨hsorted, hlater⟩ := ih hrest
    rw [List.flatMap_cons]
    refine ⟨List.pairwise_append.mpr ⟨List.pairwise_lt_range', hsorted, ?_⟩, ?_⟩
    · intro a ha b hb
      have hb := hlater b hb
      rw [List.mem_range'_1] at ha
      omega
    · intro offset hoffset
      rcases List.mem_append.mp hoffset with hfirst | hafter
      · rw [List.mem_range'_1] at hfirst
        omega
      · have hafter := hlater offset hafter
        omega

namespace Tree

/-! ## What there is to count -/

/-- The nodes with a property that have no `ERROR` node above them, in preorder. -/
def outsideErrors (p : Tree → Bool) (t : Tree) : List Tree :=
  ((t.lineages []).filter fun lineage =>
    p lineage.1 && lineage.2.all fun a => !a.isError).map (·.1)

/-- The offsets of the bytes that lie in some `ERROR` node. -/
def errorOffsets (t : Tree) : Finset Nat :=
  ((t.nodes.filter isError).flatMap fun s => List.range' s.start s.width).toFinset

/-- Stand-ins are leaves, and a node is marked exactly if there is an `ERROR` node or a stand-in at
or below it. -/
structure HonestMarks (t : Tree) : Prop where
  missing_leaf : ∀ s ∈ t.nodes, s.missing = true → s.isError = false ∧ s.children = []
  hasError_iff : ∀ s ∈ t.nodes,
    s.hasError = true ↔ ∃ r ∈ s.nodes, r.isError = true ∨ r.missing = true

instance (t : Tree) : Decidable t.HonestMarks :=
  decidable_of_iff ((∀ s ∈ t.nodes, s.missing = true → s.isError = false ∧ s.children.length = 0) ∧
      ∀ s ∈ t.nodes, s.hasError = true ↔ ∃ r ∈ s.nodes, r.isError = true ∨ r.missing = true)
    ⟨fun ⟨hleaf, hmark⟩ =>
        ⟨fun s hs hm => (hleaf s hs hm).imp_right List.length_eq_zero_iff.mp, hmark⟩,
      fun h => ⟨fun s hs hm => (h.missing_leaf s hs hm).imp_right List.length_eq_zero_iff.mpr,
        h.hasError_iff⟩⟩

theorem HonestMarks.of_mem {s t : Tree} (h : t.HonestMarks) (hs : s ∈ t.nodes) : s.HonestMarks :=
  ⟨fun r hr => h.missing_leaf r (mem_nodes_trans hr hs),
    fun r hr => h.hasError_iff r (mem_nodes_trans hr hs)⟩

/-! ## Nodes outside `ERROR` nodes -/

/-- What is above the tree matters only in that there may be an `ERROR` node. -/
theorem map_fst_filter_lineages_above (p : Tree → Bool) (above : List Tree) (t : Tree) :
    ((t.lineages above).filter fun lineage =>
        p lineage.1 && lineage.2.all fun a => !a.isError).map (·.1) =
      if above.all fun a => !a.isError then t.outsideErrors p else [] := by
  induction t generalizing above with
  | node label children ih =>
    have hbelow : ∀ above : List Tree,
        ((children.flatMap (lineages above)).filter fun lineage =>
            p lineage.1 && lineage.2.all fun a => !a.isError).map (·.1) =
          if above.all fun a => !a.isError then children.flatMap (outsideErrors p) else [] := by
      intro above
      rw [List.filter_flatMap, List.map_flatMap, List.flatMap_congr fun c hc => ih c hc above]
      split
      · rfl
      · exact List.flatMap_eq_nil_iff.mpr fun _ _ => rfl
    rw [outsideErrors, lineages_eq_cons, lineages_eq_cons, List.filter_cons, List.filter_cons]
    cases habove : above.all fun a => !a.isError with
    | false => simp [hbelow, habove]
    | true => cases p (node label children) <;> simp [hbelow, habove]

theorem outsideErrors_eq (p : Tree → Bool) (t : Tree) :
    t.outsideErrors p = (if p t then [t] else []) ++
      if t.isError then [] else t.children.flatMap (outsideErrors p) := by
  have hbelow : ((t.children.flatMap (lineages [t])).filter fun lineage =>
        p lineage.1 && lineage.2.all fun a => !a.isError).map (·.1) =
      if t.isError then [] else t.children.flatMap (outsideErrors p) := by
    rw [List.filter_flatMap, List.map_flatMap,
      List.flatMap_congr fun c _ => map_fst_filter_lineages_above p [t] c]
    cases herror : t.isError <;> simp [herror]
  rw [outsideErrors, lineages_eq_cons, List.filter_cons]
  cases p t <;> simp [hbelow]

theorem outsideErrors_eq_nil {p : Tree → Bool} {t : Tree} (h : ∀ s ∈ t.nodes, p s = false) :
    t.outsideErrors p = [] := by
  have hnone : ∀ lineage ∈ t.lineages [], p lineage.1 = false := by
    intro lineage hlineage
    apply h
    rw [← map_fst_lineages [] t]
    exact List.mem_map_of_mem hlineage
  rw [outsideErrors, List.map_eq_nil_iff, List.filter_eq_nil_iff]
  intro lineage hlineage
  simp [hnone lineage hlineage]

theorem mem_nodes_of_mem_outsideErrors {p : Tree → Bool} {s t : Tree}
    (h : s ∈ t.outsideErrors p) : s ∈ t.nodes ∧ p s = true := by
  obtain ⟨lineage, hlineage, rfl⟩ := List.mem_map.mp h
  obtain ⟨hmem, hp⟩ := List.mem_filter.mp hlineage
  refine ⟨?_, (Bool.and_eq_true_iff.mp hp).1⟩
  rw [← map_fst_lineages [] t]
  exact List.mem_map_of_mem hmem

/-! ## The walk -/

/-- The damage `d` with that of the trees in a list. -/
def withDamageOf (ts : List Tree) (d : Damage) : Damage where
  errorBytes := d.errorBytes + ((ts.flatMap (outsideErrors isError)).map width).sum
  errorNodes := d.errorNodes + (ts.flatMap (outsideErrors isError)).length
  missingNodes := d.missingNodes + (ts.flatMap (outsideErrors missing)).length

theorem withDamageOf_cons (t : Tree) (ts : List Tree) (d : Damage) :
    withDamageOf ts (withDamageOf [t] d) = withDamageOf (t :: ts) d := by
  simp only [withDamageOf, List.flatMap_cons, List.flatMap_nil, List.append_nil, List.map_append,
    List.sum_append, List.length_append, Nat.add_assoc]

theorem withDamageOf_eq_self {ts : List Tree} (d : Damage)
    (herrors : ts.flatMap (outsideErrors isError) = [])
    (hmissing : ts.flatMap (outsideErrors missing) = []) : withDamageOf ts d = d := by
  simp [withDamageOf, herrors, hmissing]

/-- A node that is no `ERROR` node and no stand-in adds what its children add. -/
theorem withDamageOf_children {t : Tree} (herror : t.isError = false) (hmissing : t.missing = false)
    (d : Damage) : withDamageOf t.children d = withDamageOf [t] d := by
  simp [withDamageOf, outsideErrors_eq _ t, herror, hmissing]

/-- Below a node that is marked as sound there is nothing to count. -/
theorem HonestMarks.withDamageOf_sound {t : Tree} (h : t.HonestMarks) (hsound : t.hasError = false)
    (d : Damage) : withDamageOf [t] d = d := by
  have hnone : ∀ s ∈ t.nodes, ¬ (s.isError = true ∨ s.missing = true) := by
    intro s hs hdamage
    have hmarked := (h.hasError_iff t (self_mem_nodes t)).mpr ⟨s, hs, hdamage⟩
    rw [hsound] at hmarked
    cases hmarked
  apply withDamageOf_eq_self
  · have hnil : t.outsideErrors isError = [] :=
      outsideErrors_eq_nil fun s hs => Bool.eq_false_iff.mpr fun he => hnone s hs (.inl he)
    simp [hnil]
  · have hnil : t.outsideErrors missing = [] :=
      outsideErrors_eq_nil fun s hs => Bool.eq_false_iff.mpr fun hm => hnone s hs (.inr hm)
    simp [hnil]

theorem HonestMarks.withDamageOf_error {t : Tree} (h : t.HonestMarks) (herror : t.isError = true)
    (d : Damage) : withDamageOf [t] d =
      { d with errorNodes := d.errorNodes + 1, errorBytes := d.errorBytes + t.width } := by
  have hmissing : t.missing = false := by
    apply Bool.eq_false_iff.mpr
    intro hmissing
    have hclear := (h.missing_leaf t (self_mem_nodes t) hmissing).1
    rw [herror] at hclear
    cases hclear
  simp [withDamageOf, outsideErrors_eq _ t, herror, hmissing]

theorem HonestMarks.withDamageOf_missing {t : Tree} (h : t.HonestMarks)
    (hmissing : t.missing = true) (d : Damage) :
    withDamageOf [t] d = { d with missingNodes := d.missingNodes + 1 } := by
  obtain ⟨herror, hleaf⟩ := h.missing_leaf t (self_mem_nodes t) hmissing
  simp [withDamageOf, outsideErrors_eq _ t, herror, hmissing, hleaf]

theorem visitAll_inspect {ts : List Tree} {depth : Nat}
    (h : ∀ t ∈ ts, ∀ d, t.visit Damage.inspect depth d = withDamageOf [t] d) (d : Damage) :
    visitAll Damage.inspect depth ts d = withDamageOf ts d := by
  induction ts generalizing d with
  | nil => exact (withDamageOf_eq_self d rfl rfl).symm
  | cons t ts ih =>
    rw [visitAll, h t List.mem_cons_self, ih fun c hc => h c (List.mem_cons_of_mem t hc),
      withDamageOf_cons]

/-- A visit adds the damage of the tree, wherever it turns back. -/
theorem HonestMarks.visit_inspect {t : Tree} (h : t.HonestMarks) (depth : Nat) (d : Damage) :
    t.visit Damage.inspect depth d = withDamageOf [t] d := by
  induction t generalizing depth d with
  | node label children ih =>
    rw [visit_eq]
    by_cases herror : (node label children).isError = true
    · rw [h.withDamageOf_error herror]
      simp [Damage.inspect, herror]
    · rw [Bool.not_eq_true] at herror
      by_cases hmissing : (node label children).missing = true
      · rw [h.withDamageOf_missing hmissing]
        simp [Damage.inspect, herror, hmissing]
      · rw [Bool.not_eq_true] at hmissing
        have hbelow := visitAll_inspect fun c hc d =>
          ih c hc (h.of_mem (mem_nodes_of_mem_children hc)) (depth + 1) d
        by_cases hmarked : (node label children).hasError = true
        · rw [← withDamageOf_children herror hmissing]
          simp [Damage.inspect, herror, hmissing, hmarked, hbelow]
        · rw [Bool.not_eq_true] at hmarked
          rw [h.withDamageOf_sound hmarked]
          simp [Damage.inspect, herror, hmissing, hmarked]

theorem HonestMarks.damage_eq {t : Tree} (h : t.HonestMarks) (hroot : t.missing = false) :
    t.damage = withDamageOf [t] {} := by
  unfold damage
  by_cases herror : t.isError = true
  · rw [if_pos herror, h.withDamageOf_error herror, Nat.zero_add, Nat.zero_add]
  · rw [if_neg herror]
    rw [Bool.not_eq_true] at herror
    by_cases hmarked : t.hasError = true
    · have hvisit := fun c (hc : c ∈ t.children) =>
        (h.of_mem (mem_nodes_of_mem_children hc)).visit_inspect 1
      rw [if_pos hmarked, walk_eq_visitAll, visitAll_inspect hvisit,
        withDamageOf_children herror hroot]
    · rw [if_neg hmarked, h.withDamageOf_sound (Bool.not_eq_true _ ▸ hmarked)]

/-! ## Bytes -/

/-- The outermost `ERROR` nodes lie one after another. -/
theorem WellNested.ascending_outsideErrors {t : Tree} (h : t.WellNested) :
    Ascending t.start t.stop ((t.outsideErrors isError).map range) := by
  induction t with
  | node label children ih =>
    rw [outsideErrors_eq]
    by_cases herror : (node label children).isError = true
    · rw [if_pos herror, if_pos herror]
      exact ⟨Nat.le_refl _, h.start_le_stop, Nat.le_refl _⟩
    · rw [if_neg herror, if_neg herror, List.nil_append, List.map_flatMap]
      apply h.ascending_children.flatMap
      intro c hc
      exact ih c hc (h.of_mem (mem_nodes_of_mem_children hc))

/-- Each `ERROR` node lies inside an outermost one. -/
theorem WellNested.exists_outermost {s t : Tree} (h : t.WellNested) (hs : s ∈ t.nodes)
    (herror : s.isError = true) : ∃ e ∈ t.outsideErrors isError, e.Encloses s := by
  induction t with
  | node label children ih =>
    by_cases hroot : (node label children).isError = true
    · refine ⟨node label children, ?_, h.encloses hs⟩
      rw [outsideErrors_eq, if_pos hroot]
      exact List.mem_append_left _ List.mem_cons_self
    · rcases mem_nodes_iff.mp hs with rfl | ⟨c, hc, hs⟩
      · exact absurd herror hroot
      · obtain ⟨e, he, hencloses⟩ := ih c hc (h.of_mem (mem_nodes_of_mem_children hc)) hs
        refine ⟨e, ?_, hencloses⟩
        rw [outsideErrors_eq, if_neg hroot, if_neg hroot]
        exact List.mem_flatMap.mpr ⟨c, hc, he⟩

theorem WellNested.mem_errorOffsets {t : Tree} (h : t.WellNested) {offset : Nat} :
    offset ∈ t.errorOffsets ↔
      offset ∈ (t.outsideErrors isError).flatMap fun s => List.range' s.start s.width := by
  rw [errorOffsets, List.mem_toFinset, List.mem_flatMap, List.mem_flatMap]
  constructor
  · rintro ⟨s, hs, hoffset⟩
    obtain ⟨hs, herror⟩ := List.mem_filter.mp hs
    obtain ⟨e, he, hencloses⟩ := h.exists_outermost hs herror
    refine ⟨e, he, ?_⟩
    rw [List.mem_range'_1] at hoffset ⊢
    simp only [Encloses, width] at hencloses hoffset ⊢
    omega
  · rintro ⟨e, he, hoffset⟩
    exact ⟨e, List.mem_filter.mpr (mem_nodes_of_mem_outsideErrors he), hoffset⟩

/-- The bytes in `ERROR` nodes are those of the outermost ones, and none is in two of them. -/
theorem WellNested.card_errorOffsets {t : Tree} (h : t.WellNested) :
    t.errorOffsets.card = ((t.outsideErrors isError).map width).sum := by
  have hsorted : ((t.outsideErrors isError).flatMap fun s =>
      List.range' s.start s.width).Pairwise (· < ·) := by
    have hoffsets := h.ascending_outsideErrors.pairwise_offsets.1
    rw [List.flatMap_map] at hoffsets
    exact hoffsets
  have hset : t.errorOffsets =
      ((t.outsideErrors isError).flatMap fun s => List.range' s.start s.width).toFinset := by
    ext offset
    rw [h.mem_errorOffsets, List.mem_toFinset]
  rw [hset, List.toFinset_card_of_nodup (hsorted.imp Nat.ne_of_lt), List.length_flatMap]
  congr 2
  funext s
  exact List.length_range'

/-- **Damage.** The walk that measures damage finds as many bytes as there are offsets in `ERROR`
nodes, and as many `ERROR` nodes and stand-ins as have no `ERROR` node above them. -/
theorem damage_eq_count {t : Tree} (hwell : t.WellNested) (hmarks : t.HonestMarks)
    (hroot : t.missing = false) :
    t.damage =
      { errorBytes := t.errorOffsets.card
        errorNodes := (t.outsideErrors isError).length
        missingNodes := (t.outsideErrors missing).length } := by
  rw [hmarks.damage_eq hroot, hwell.card_errorOffsets]
  simp [withDamageOf]

/-- Two `ERROR` nodes of five and three bytes, the first with another one and a stand-in inside, and
one more stand-in after it. -/
def errorInError : Tree :=
  .node ⟨"program", true, false, true, none, 0, 20⟩
    [.node ⟨"statement", true, false, false, none, 0, 4⟩ [],
      .node ⟨"block", true, false, true, none, 4, 16⟩
        [.node ⟨"ERROR", true, false, true, none, 5, 10⟩
          [.node ⟨"ERROR", true, false, true, none, 6, 8⟩ [],
            .node ⟨")", false, true, true, none, 9, 9⟩ []],
          .node ⟨";", false, true, true, none, 12, 12⟩ []],
      .node ⟨"ERROR", true, false, true, none, 16, 19⟩ []]

theorem damage_errorInError :
    errorInError.WellNested ∧ errorInError.HonestMarks ∧ errorInError.missing = false ∧
      errorInError.errorOffsets = {5, 6, 7, 8, 9, 16, 17, 18} ∧
      errorInError.damage = { errorBytes := 8, errorNodes := 2, missingNodes := 1 } := by
  have hwell : errorInError.WellNested := by decide
  have hmarks : errorInError.HonestMarks := by decide
  have hcount := damage_eq_count hwell hmarks rfl
  refine ⟨hwell, hmarks, rfl, by decide, ?_⟩
  rw [hcount]
  decide

end Tree

end CodeOutline
