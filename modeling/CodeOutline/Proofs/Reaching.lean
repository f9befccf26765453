import CodeOutline.Proofs.Ordering

/-!
# Places that a rule comes to

A rule *reaches* a place when the exploration of a tree applies it there: the place is a child of
the root, or of a place where the rule says to look on.

**Findings (`Local.mem_findings_iff`).** What a local rule finds in a tree is what it lists at the
places that it reaches.

**Around an offset (`Reaches.exists_symbolsAt`).** A list of items is *parted* when the places where
to look on lie apart from each other and all that is declared beside them is declared by the node
itself. If a rule lists such items only, then of the symbols that cover an offset in a reached place
those not found from this place on are declared by nodes above it. The proof follows the path from
the root down to the place. At each step the symbols of the other places fall away, since they
cannot cover the offset.
-/

namespace CodeOutline

open CodeOutline.Tree

/-! ## Nodes below a node, and children among their siblings -/

namespace Tree

/-- `s` is a node of `t` other than `t` itself. -/
def Below (s t : Tree) : Prop := ∃ c ∈ t.children, s ∈ c.nodes

namespace Below

variable {r s t : Tree}

theorem mem_nodes (h : s.Below t) : s ∈ t.nodes := mem_nodes_iff.mpr (Or.inr h)

theorem of_mem (hr : r ∈ s.nodes) (h : s.Below t) : r.Below t := by
  obtain ⟨c, hc, hs⟩ := h
  exact ⟨c, hc, mem_nodes_trans hr hs⟩

theorem trans_mem (h : r.Below s) (hs : s ∈ t.nodes) : r.Below t := by
  rcases mem_nodes_iff.mp hs with rfl | ⟨c, hc, hs⟩
  · exact h
  · exact ⟨c, hc, mem_nodes_trans h.mem_nodes hs⟩

theorem height_lt (h : s.Below t) : s.height < t.height := by
  obtain ⟨c, hc, hs⟩ := h
  exact Nat.lt_of_le_of_lt (height_le_of_mem_nodes hs) (height_lt_of_mem_children hc)

end Below

end Tree

namespace Cursor

/-- The place of the child `t` that follows the children `before`. -/
def childAt (c : Cursor) (before : List Tree) (t : Tree) (after : List Tree) : Cursor :=
  ⟨t, ⟨c.node, before.reverse, after⟩ :: c.frames⟩

theorem childAt_mem_childrenFrom (c : Cursor) (passed before : List Tree) (t : Tree)
    (after : List Tree) :
    ⟨t, ⟨c.node, before.reverse ++ passed, after⟩ :: c.frames⟩ ∈
      c.childrenFrom passed (before ++ t :: after) := by
  induction before generalizing passed with
  | nil => exact List.mem_cons_self
  | cons b before ih =>
    have hrest := ih (b :: passed)
    rw [List.cons_append, childrenFrom, List.reverse_cons, List.append_assoc]
    exact List.mem_cons_of_mem _ hrest

theorem childAt_mem_children {c : Cursor} {before after : List Tree} {t : Tree}
    (h : c.node.children = before ++ t :: after) : c.childAt before t after ∈ c.children := by
  have hmem := childAt_mem_childrenFrom c [] before t after
  rw [List.append_nil] at hmem
  rw [children, h]
  exact hmem

theorem below_of_mem_children {c d : Cursor} (h : d ∈ c.children) : d.node.Below c.node :=
  ⟨d.node, node_mem_children h, self_mem_nodes d.node⟩

end Cursor

/-! ## Reached places -/

namespace Rule

/-- The exploration of `root` applies the rule at the place, in the given scope. -/
inductive Reaches (rule : Rule) (root : Tree) : Scope → Cursor → Prop
  | child {c : Cursor} : c ∈ (Cursor.root root).children → c.node.isError = false →
      Reaches rule root {} c
  | inside {scope inner : Scope} {c place d : Cursor} : Reaches rule root scope c →
      .enter place inner ∈ rule scope c → d ∈ place.children → d.node.isError = false →
      Reaches rule root inner d

variable {src : String} {rule : Rule} {root : Tree} {scope : Scope} {c : Cursor}

theorem Reaches.isError_eq_false (h : rule.Reaches root scope c) : c.node.isError = false := by
  cases h with
  | child _ hclear => exact hclear
  | inside _ _ _ hclear => exact hclear

theorem Reaches.item_local (h : rule.Reaches root scope c) (hlocal : rule.Local src) {item : Item}
    (hitem : item ∈ rule scope c) : item.Local src c.node :=
  hlocal scope c (isSealed_of_isError h.isError_eq_false) item hitem

theorem Reaches.below_root (h : rule.Reaches root scope c) (hlocal : rule.Local src) :
    c.node.Below root := by
  induction h with
  | child hc _ => exact Cursor.below_of_mem_children hc
  | inside hreach hplace hd _ ih =>
    have hin := (hreach.item_local hlocal hplace).1
    exact ih.of_mem (mem_nodes_trans (Cursor.mem_nodes_of_mem_children hd) hin)

/-- All that an item listed at a reached place leads to is found in the tree. -/
theorem Reaches.exists_levels (h : rule.Reaches root scope c) (hlocal : rule.Local src) :
    ∃ levels, c.node.height ≤ levels ∧
      ∀ item ∈ rule scope c, ∀ finding ∈ follow rule levels item, finding ∈ rule.findings root := by
  have hdown : ∀ {scope : Scope} {place d : Cursor} {levels : Nat}, d ∈ place.children →
      d.node.isError = false → ∀ item ∈ rule scope d, ∀ finding ∈ follow rule levels item,
      finding ∈ explore rule (levels + 1) scope place := by
    intro scope place d levels hd hclear item hitem finding hfinding
    rw [explore_succ, List.mem_flatMap]
    refine ⟨d, hd, ?_⟩
    rw [hclear, if_neg Bool.false_ne_true]
    exact List.mem_flatMap.mpr ⟨item, hitem, hfinding⟩
  induction h with
  | @child c hc hclear =>
    have hlt : c.node.height < root.height := (Cursor.below_of_mem_children hc).height_lt
    obtain ⟨levels, hlevels⟩ : ∃ levels, root.height = levels + 1 := ⟨root.height - 1, by omega⟩
    refine ⟨levels, by omega, fun item hitem finding hfinding => ?_⟩
    rw [findings, hlevels]
    exact hdown hc hclear item hitem finding hfinding
  | @inside scope inner c place d hreach hplace hd hclear ih =>
    obtain ⟨above, habove, hfound⟩ := ih
    have hin := height_le_of_mem_nodes (hreach.item_local hlocal hplace).1
    have hlt := (Cursor.below_of_mem_children hd).height_lt
    obtain ⟨levels, rfl⟩ : ∃ levels, above = levels + 1 := ⟨above - 1, by omega⟩
    refine ⟨levels, by omega, fun item hitem finding hfinding => ?_⟩
    exact hfound _ hplace _ (hdown hd hclear item hitem finding hfinding)

/-- **What is found** in a tree is what the rule lists at the places that it reaches. -/
theorem Local.mem_findings_iff (hlocal : rule.Local src) {finding : Finding} :
    finding ∈ rule.findings root ↔
      ∃ scope c, rule.Reaches root scope c ∧ .found finding ∈ rule scope c := by
  constructor
  · refine explore_induction
      (fun scope place => ∀ d ∈ place.children, d.node.isError = false →
        rule.Reaches root scope d)
      (fun finding => ∃ scope c, rule.Reaches root scope c ∧ .found finding ∈ rule scope c)
      ?_ ?_ root.height {} (Cursor.root root) ?_ finding
    · intro scope place child other hplace hchild hclear hitem
      exact ⟨scope, child, hplace child hchild hclear, hitem⟩
    · intro scope place child inner innerScope hplace hchild hclear hitem d hd hopen
      exact .inside (hplace child hchild hclear) hitem hd hopen
    · exact fun d hd hopen => .child hd hopen
  · rintro ⟨scope, c, hreach, hitem⟩
    obtain ⟨levels, _, hfound⟩ := hreach.exists_levels hlocal
    exact hfound _ hitem finding (List.mem_singleton.mpr rfl)

end Rule

/-! ## Symbols around an offset -/

/-- The symbols among the findings that cover an offset. -/
def symbolsAt (offset : Nat) (findings : List Finding) : List Declared :=
  (findings.filterMap Finding.symbol?).filter fun d => d.covers offset

theorem mem_symbolsAt {offset : Nat} {findings : List Finding} {d : Declared} :
    d ∈ symbolsAt offset findings ↔ .symbol d ∈ findings ∧ d.covers offset = true := by
  rw [symbolsAt, List.mem_filter, Finding.mem_filterMap_symbol?]

theorem symbolsAt_append (offset : Nat) (xs ys : List Finding) :
    symbolsAt offset (xs ++ ys) = symbolsAt offset xs ++ symbolsAt offset ys := by
  rw [symbolsAt, List.filterMap_append, List.filter_append, symbolsAt, symbolsAt]

theorem symbolsAt_eq_nil {offset : Nat} {findings : List Finding}
    (h : ∀ d, .symbol d ∈ findings → d.covers offset = false) : symbolsAt offset findings = [] := by
  refine List.eq_nil_iff_forall_not_mem.mpr fun d hd => ?_
  obtain ⟨hmem, hcovers⟩ := mem_symbolsAt.mp hd
  exact absurd hcovers (by simp [h d hmem])

theorem Declared.covers_iff {d : Declared} {offset : Nat} :
    d.covers offset = true ↔ d.start ≤ offset ∧ offset < d.stop := by
  rw [covers, Bool.and_eq_true, decide_eq_true_eq, decide_eq_true_eq]

/-- A symbol that a node of a well-nested tree declares covers offsets of the tree only. -/
theorem Declared.Spans.covers_inside {src : String} {d : Declared} {s t : Tree} {offset : Nat}
    (h : d.Spans src s) (hs : s ∈ t.nodes) (hwell : t.WellNested)
    (hcovers : d.covers offset = true) : t.start ≤ offset ∧ offset < t.stop := by
  have hin := hwell.encloses hs
  rw [Declared.covers_iff, h.start, h.stop] at hcovers
  exact ⟨Nat.le_trans hin.1 hcovers.1, Nat.lt_of_lt_of_le hcovers.2 hin.2⟩

theorem Rule.Local.spans_follow {src : String} {rule : Rule} (hlocal : rule.Local src) {t : Tree}
    {levels : Nat} {item : Item} {d : Declared} (hitem : item.Local src t)
    (hd : .symbol d ∈ rule.follow levels item) : ∃ s ∈ t.nodes, d.Spans src s := by
  cases item with
  | found finding =>
    obtain rfl := List.mem_singleton.mp hd
    exact hitem
  | enter place scope =>
    obtain ⟨s, hs, hspans⟩ := hlocal.spans_explore hd
    exact ⟨s, mem_nodes_trans hs hitem.1, hspans⟩

/-! ## Parted items -/

/-- What the item declares, if anything, has the property. -/
def Item.Each (P : Declared → Prop) : Item → Prop
  | .found (.symbol d) => P d
  | _ => True

theorem Silent.each {P : Declared → Prop} {items : List Item} (h : Silent items) {item : Item}
    (hitem : item ∈ items) : item.Each P := by
  have hnone := h item hitem
  cases item with
  | enter place scope => trivial
  | found finding =>
    cases finding with
    | symbol d => cases hnone
    | _ => trivial

theorem Item.each_of_mem_within {P : Declared → Prop} {place : Option Cursor} {scope : Scope}
    {item : Item} (h : item ∈ within place scope) : item.Each P := by
  obtain ⟨p, _, rfl⟩ := List.mem_map.mp h
  trivial

theorem Item.each_of_mem_declare {src : String} {t : Tree} {scope : Scope} {leaf : String}
    {kind : SymbolKind} {signature : String} {docstring : Option String} {marks : List Mark}
    {rest : List Item} (hrest : ∀ item ∈ rest, item.Each (·.Spans src t)) {item : Item}
    (h : item ∈ declare src t scope leaf kind signature docstring marks :: rest) :
    item.Each (·.Spans src t) := by
  rcases List.mem_cons.mp h with rfl | h
  · exact ⟨rfl, rfl, rfl, rfl⟩
  · exact hrest item h

theorem Ascending.pairwise_apart {lo hi : Nat} {rs : List (Nat × Nat)} (h : Ascending lo hi rs) :
    rs.Pairwise fun x y => x.2 ≤ y.1 := by
  induction rs generalizing lo with
  | nil => exact List.Pairwise.nil
  | cons r rs ih =>
    refine List.pairwise_cons.mpr ⟨fun y hy => ?_, ih h.2.2⟩
    exact (h.2.2.sublist (List.singleton_sublist.mpr hy)).1

/-- The place where the item says to look on. -/
def Item.place? : Item → Option Cursor
  | .found _ => none
  | .enter place _ => some place

def Item.places (items : List Item) : List Cursor := items.filterMap place?

namespace Item

theorem mem_places {items : List Item} {place : Cursor} {scope : Scope}
    (h : .enter place scope ∈ items) : place ∈ places items :=
  List.mem_filterMap.mpr ⟨_, h, rfl⟩

theorem places_append (xs ys : List Item) : places (xs ++ ys) = places xs ++ places ys :=
  List.filterMap_append

theorem places_flatMap {α : Type} (xs : List α) (f : α → List Item) :
    places (xs.flatMap f) = xs.flatMap fun x => places (f x) :=
  List.filterMap_flatMap

theorem places_within (place : Option Cursor) (scope : Scope) :
    places (within place scope) = place.toList := by
  cases place <;> rfl

theorem places_imports (imported : List Import) : places (imported.map imports) = [] := by
  refine List.filterMap_eq_nil_iff.mpr fun item hitem => ?_
  obtain ⟨i, _, rfl⟩ := List.mem_map.mp hitem
  rfl

theorem places_sublist (items : List Item) :
    ((places items).map fun place => place.node.range).Sublist (items.filterMap range?) := by
  induction items with
  | nil => exact List.Sublist.refl _
  | cons item items ih =>
    cases item with
    | enter place scope => exact ih.cons_cons _
    | found finding =>
      have hrest : places (.found finding :: items) = places items := rfl
      rw [hrest, List.filterMap_cons]
      split
      · exact ih
      · exact ih.cons _

end Item

/-- The places among items in order are in order. -/
theorem InOrder.ascending_places {lo hi : Nat} {items : List Item} (h : InOrder lo hi items) :
    Ascending lo hi ((Item.places items).map fun place => place.node.range) :=
  h.ascending.sublist (Item.places_sublist items)

/-- What is listed for the node `t` looks on in places apart from each other, and if it does, what
it declares is declared by `t` itself. -/
structure Parted (src : String) (t : Tree) (items : List Item) : Prop where
  apart : Ascending t.start t.stop ((Item.places items).map fun place => place.node.range)
  own : ∀ place scope, .enter place scope ∈ items →
    ∀ d, .found (.symbol d) ∈ items → d.Spans src t

namespace Parted

variable {src : String} {t : Tree} {items xs ys : List Item} {place : Cursor} {scope : Scope}

/-- The places before and after one of them. -/
theorem before_after (h : Parted src t (xs ++ .enter place scope :: ys)) :
    (∀ p s, .enter p s ∈ xs → p.node.stop ≤ place.node.start) ∧
      ∀ p s, .enter p s ∈ ys → place.node.stop ≤ p.node.start := by
  have hmem : ∀ {items : List Item} {p : Cursor} {s : Scope}, .enter p s ∈ items →
      p.node.range ∈ (Item.places items).map fun place => place.node.range := fun hitem =>
    List.mem_map_of_mem (Item.mem_places hitem)
  have hpairs := h.apart.pairwise_apart
  have hplaces : Item.places (xs ++ .enter place scope :: ys) =
      Item.places xs ++ place :: Item.places ys := Item.places_append xs _
  rw [hplaces, List.map_append, List.map_cons, List.pairwise_append, List.pairwise_cons] at hpairs
  obtain ⟨_, ⟨hafter, _⟩, hbefore⟩ := hpairs
  refine ⟨fun p s hp => ?_, fun p s hp => ?_⟩
  · exact hbefore _ (hmem hp) _ List.mem_cons_self
  · exact hafter _ (hmem hp)

variable {rule : Rule}

/-- Around an offset in one of the places, whatever else is listed is declared by the node. -/
theorem exists_symbolsAt (h : Parted src t items) (hlocal : rule.Local src)
    (hitems : ∀ item ∈ items, item.Local src t) (hwell : t.WellNested) (levels : Nat) {offset : Nat}
    (hplace : .enter place scope ∈ items)
    (hin : place.node.start ≤ offset ∧ offset < place.node.stop) :
    ∃ before after, (∀ d ∈ before ++ after, d.Spans src t) ∧
      symbolsAt offset (items.flatMap (rule.follow levels)) =
        before ++ symbolsAt offset (rule.explore levels scope place) ++ after := by
  obtain ⟨xs, ys, rfl⟩ := List.append_of_mem hplace
  obtain ⟨hbefore, hafter⟩ := h.before_after
  -- what covers the offset cannot come from another place
  have hown : ∀ item ∈ xs ++ ys, ∀ d ∈ symbolsAt offset (rule.follow levels item),
      d.Spans src t := by
    intro item hitem d hd
    have hlisted : item ∈ xs ++ .enter place scope :: ys := by
      rw [List.mem_append, List.mem_cons]
      exact (List.mem_append.mp hitem).imp_right Or.inr
    obtain ⟨hd, hcovers⟩ := mem_symbolsAt.mp hd
    cases item with
    | found finding =>
      obtain rfl := List.mem_singleton.mp hd
      exact h.own place scope hplace d hlisted
    | enter p s =>
      obtain ⟨r, hr, hspans⟩ := hlocal.spans_explore hd
      have hpwell := hwell.of_mem (hitems _ hlisted).1
      have hp := hspans.covers_inside hr hpwell hcovers
      rcases List.mem_append.mp hitem with hitem | hitem
      · have hle := hbefore p s hitem
        omega
      · have hle := hafter p s hitem
        omega
  refine ⟨symbolsAt offset (xs.flatMap (rule.follow levels)),
    symbolsAt offset (ys.flatMap (rule.follow levels)), fun d hd => ?_, ?_⟩
  · rw [← symbolsAt_append, ← List.flatMap_append, mem_symbolsAt, List.mem_flatMap] at hd
    obtain ⟨⟨item, hitem, hd⟩, hcovers⟩ := hd
    exact hown item hitem d (mem_symbolsAt.mpr ⟨hd, hcovers⟩)
  · rw [List.flatMap_append, List.flatMap_cons, symbolsAt_append, symbolsAt_append,
      List.append_assoc]
    rfl

end Parted

namespace Rule

variable {src : String} {rule : Rule} {root : Tree}

/-- Around an offset in a child, only this child matters. -/
theorem Local.symbolsAt_explore_succ (hlocal : rule.Local src) (levels : Nat) (scope : Scope)
    {place c : Cursor} (hwell : place.node.WellNested) (hc : c ∈ place.children)
    (hclear : c.node.isError = false) {offset : Nat}
    (hin : c.node.start ≤ offset ∧ offset < c.node.stop) :
    symbolsAt offset (rule.explore (levels + 1) scope place) =
      symbolsAt offset ((rule scope c).flatMap (rule.follow levels)) := by
  -- a child that does not hold the offset gives nothing
  have hother : ∀ d ∈ place.children, d.node.stop ≤ offset ∨ offset < d.node.start →
      symbolsAt offset (if d.node.isError then []
        else (rule scope d).flatMap (rule.follow levels)) = [] := by
    intro d hd hout
    refine symbolsAt_eq_nil fun e he => ?_
    split at he
    · cases he
    · next herror =>
      obtain ⟨item, hitem, he⟩ := List.mem_flatMap.mp he
      have hopen := isSealed_of_isError (t := d.node) (by simpa using herror)
      obtain ⟨s, hs, hspans⟩ := hlocal.spans_follow (hlocal scope d hopen item hitem) he
      have hdwell := hwell.of_mem (Cursor.mem_nodes_of_mem_children hd)
      by_contra hcovers
      have hd := hspans.covers_inside hs hdwell (by simpa using hcovers)
      omega
  have hnil : ∀ ds : List Cursor, (∀ d ∈ ds, d ∈ place.children ∧
      (d.node.stop ≤ offset ∨ offset < d.node.start)) →
      symbolsAt offset (ds.flatMap fun d => if d.node.isError then []
        else (rule scope d).flatMap (rule.follow levels)) = [] := by
    intro ds hds
    induction ds with
    | nil => rfl
    | cons d ds ih =>
      obtain ⟨hd, hout⟩ := hds d List.mem_cons_self
      rw [List.flatMap_cons, symbolsAt_append, hother d hd hout,
        ih fun e he => hds e (List.mem_cons_of_mem d he), List.append_nil]
  have hpairs := (Cursor.ascending_children hwell).pairwise_apart
  rw [List.pairwise_map] at hpairs
  obtain ⟨xs, ys, hsplit⟩ := List.append_of_mem hc
  rw [explore_succ, hsplit, List.flatMap_append, List.flatMap_cons, symbolsAt_append,
    symbolsAt_append]
  rw [hsplit, List.pairwise_append, List.pairwise_cons] at hpairs
  obtain ⟨_, ⟨hafter, _⟩, hbefore⟩ := hpairs
  have hxs := hnil xs fun d hd => ⟨by simp [hsplit, hd],
    Or.inl (Nat.le_trans (hbefore d hd c List.mem_cons_self) hin.1)⟩
  have hys := hnil ys fun d hd => ⟨by simp [hsplit, hd],
    Or.inr (Nat.lt_of_lt_of_le hin.2 (hafter d hd))⟩
  rw [hxs, hys, hclear, if_neg Bool.false_ne_true, List.nil_append, List.append_nil]

/-- All that the rule lists is parted. -/
def Parts (src : String) (rule : Rule) : Prop :=
  ∀ scope c, c.node.WellNested → Parted src c.node (rule scope c)

/-- **Around an offset.** The symbols that cover an offset of a reached place are found there, or
are declared by nodes above the place and below the root. -/
theorem Reaches.exists_symbolsAt {scope : Scope} {c : Cursor} (h : rule.Reaches root scope c)
    (hlocal : rule.Local src) (hparts : rule.Parts src) (hwell : root.WellNested) {offset : Nat}
    (hin : c.node.start ≤ offset ∧ offset < c.node.stop) :
    ∃ levels before after,
      (∀ d ∈ before ++ after, ∃ t, d.Spans src t ∧ t.Below root ∧ c.node.Below t) ∧
      symbolsAt offset (rule.findings root) =
        before ++ symbolsAt offset ((rule scope c).flatMap (rule.follow levels)) ++ after := by
  -- the levels left are enough for what is below the place
  suffices h' : ∃ levels before after, c.node.height ≤ levels ∧
      (∀ d ∈ before ++ after, ∃ t, d.Spans src t ∧ t.Below root ∧ c.node.Below t) ∧
      symbolsAt offset (rule.findings root) =
        before ++ symbolsAt offset ((rule scope c).flatMap (rule.follow levels)) ++ after by
    obtain ⟨levels, before, after, _, h'⟩ := h'
    exact ⟨levels, before, after, h'⟩
  induction h with
  | @child c hc hclear =>
    have hlt : c.node.height < root.height := (Cursor.below_of_mem_children hc).height_lt
    obtain ⟨levels, hlevels⟩ : ∃ levels, root.height = levels + 1 := ⟨root.height - 1, by omega⟩
    refine ⟨levels, [], [], by omega, by simp, ?_⟩
    rw [findings, hlevels, hlocal.symbolsAt_explore_succ levels {} hwell hc hclear hin,
      List.nil_append, List.append_nil]
  | @inside scope inner c place d hreach hplace hd hclear ih =>
    have hplaceIn := (hreach.item_local hlocal hplace).1
    have hcwell := hwell.of_mem (hreach.below_root hlocal).mem_nodes
    have hpwell := hcwell.of_mem hplaceIn
    have hdBelow := Cursor.below_of_mem_children hd
    have hplaceEncloses := hpwell.encloses hdBelow.mem_nodes
    have hcEncloses := hcwell.encloses hplaceIn
    simp only [Encloses] at hplaceEncloses hcEncloses
    have hplaceHolds : place.node.start ≤ offset ∧ offset < place.node.stop := by omega
    obtain ⟨above, before, after, hlevels, houter, hfindings⟩ := ih (by omega)
    have hheight := height_le_of_mem_nodes hplaceIn
    have hlt := hdBelow.height_lt
    obtain ⟨levels, rfl⟩ : ∃ levels, above = levels + 1 := ⟨above - 1, by omega⟩
    obtain ⟨before', after', hown, hhere⟩ := (hparts scope c hcwell).exists_symbolsAt hlocal
      (fun item hitem => hreach.item_local hlocal hitem) hcwell (levels + 1) hplace hplaceHolds
    refine ⟨levels, before ++ before', after' ++ after, by omega, fun e he => ?_, ?_⟩
    · have hmem : e ∈ before ++ after ∨ e ∈ before' ++ after' := by
        simp only [List.mem_append] at he ⊢
        tauto
      rcases hmem with he | he
      · obtain ⟨t, hspans, hroot, hct⟩ := houter e he
        exact ⟨t, hspans, hroot, hct.of_mem (hdBelow.trans_mem hplaceIn).mem_nodes⟩
      · exact ⟨c.node, hown e he, hreach.below_root hlocal, hdBelow.trans_mem hplaceIn⟩
    · rw [hfindings, hhere, hlocal.symbolsAt_explore_succ levels inner hpwell hd hclear hin]
      simp only [List.append_assoc]

end Rule

end CodeOutline
