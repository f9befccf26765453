import CodeOutline.Proofs.Exploration
import CodeOutline.Proofs.Walk

/-!
# Trees without what is below `ERROR` nodes

`Tree.prune` takes the children of all sealed nodes away. Every look at a tree that asks for a child
by its role, by its kind, or by its place among named children commutes with pruning, as long as the
node it starts from is not sealed; and a node with a role, or of another kind than `ERROR`, is never
sealed. So each function of a dialect gives the same on a pruned tree, one after the other.

A rule is *blind* when pruning a place prunes the places that the rule lists and changes nothing
else. What a blind local rule finds is not changed by pruning the tree (`Blind.findings_prune`).
-/

namespace CodeOutline

namespace Tree

/-! ## Pruned trees -/

mutual

/-- The tree without what is below sealed nodes. -/
def prune : Tree → Tree
  | node label children =>
    node label (if label.kind == "ERROR" && label.field.isNone then [] else pruneAll children)

/-- The trees of a list, each pruned. -/
def pruneAll : List Tree → List Tree
  | [] => []
  | t :: ts => t.prune :: pruneAll ts

end

theorem pruneAll_eq_map (ts : List Tree) : pruneAll ts = ts.map prune := by
  induction ts with
  | nil => rfl
  | cons t ts ih => rw [pruneAll, ih, List.map_cons]

@[simp] theorem label_prune (t : Tree) : t.prune.label = t.label := by
  obtain ⟨label, children⟩ := t
  rw [prune, label_node, label_node]

@[simp] theorem kind_prune (t : Tree) : t.prune.kind = t.kind := by rw [kind, label_prune, kind]

@[simp] theorem start_prune (t : Tree) : t.prune.start = t.start := by
  rw [start, label_prune, start]

@[simp] theorem stop_prune (t : Tree) : t.prune.stop = t.stop := by rw [stop, label_prune, stop]

@[simp] theorem named_prune (t : Tree) : t.prune.named = t.named := by
  rw [named, label_prune, named]

@[simp] theorem isError_prune (t : Tree) : t.prune.isError = t.isError := by
  rw [isError, kind_prune, isError]

@[simp] theorem text_prune (src : String) (t : Tree) : t.prune.text src = t.text src := by
  rw [text, start_prune, stop_prune, text]

@[simp] theorem startRow_prune (src : String) (t : Tree) :
    t.prune.startRow src = t.startRow src := by
  rw [startRow, start_prune, startRow]

@[simp] theorem stopRow_prune (src : String) (t : Tree) : t.prune.stopRow src = t.stopRow src := by
  rw [stopRow, stop_prune, stopRow]

@[simp] theorem lastRow_prune (src : String) (t : Tree) : t.prune.lastRow src = t.lastRow src := by
  simp only [lastRow, stop_prune, startRow_prune, stopRow_prune]

@[simp] theorem isComment_prune (t : Tree) : Comments.isComment t.prune = Comments.isComment t := by
  rw [Comments.isComment, kind_prune, Comments.isComment]

/-! ## Children -/

theorem children_prune {t : Tree} (h : t.isSealed = false) :
    t.prune.children = t.children.map prune := by
  obtain ⟨label, children⟩ := t
  have hsealed : (label.kind == "ERROR" && label.field.isNone) = false := h
  rw [prune, hsealed, children_node, children_node]
  exact pruneAll_eq_map children

section Open

variable {t : Tree} (h : t.isSealed = false)

include h

theorem namedChildren_prune : t.prune.namedChildren = t.namedChildren.map prune := by
  simp [namedChildren, children_prune h, List.filter_map, Function.comp_def]

theorem fields_prune (role : String) : t.prune.fields role = (t.fields role).map prune := by
  simp [fields, children_prune h, List.filter_map, Function.comp_def]

theorem field?_prune (role : String) : t.prune.field? role = (t.field? role).map prune := by
  simp [field?, children_prune h, List.find?_map, Function.comp_def]

theorem ofKind?_prune (kind : String) : t.prune.ofKind? kind = (t.ofKind? kind).map prune := by
  simp [ofKind?, children_prune h, List.find?_map, Function.comp_def]

theorem hasKind_prune (kind : String) : t.prune.hasKind kind = t.hasKind kind := by
  simp [hasKind, children_prune h, Function.comp_def]

theorem firstNamed?_prune : t.prune.firstNamed? = t.firstNamed?.map prune := by
  simp [firstNamed?, namedChildren_prune h]

theorem fieldText?_prune (src role : String) :
    t.prune.fieldText? src role = t.fieldText? src role := by
  simp [fieldText?, field?_prune h, Function.comp_def]

end Open

/-! ## Heads of declarations -/

theorem startAfter_map_prune (kinds : List String) (start : Nat) (ts : List Tree) :
    CodeOutline.startAfter kinds start (ts.map prune) = CodeOutline.startAfter kinds start ts := by
  induction ts generalizing start with
  | nil => rfl
  | cons t ts ih => simp only [List.map_cons, CodeOutline.startAfter, kind_prune, stop_prune, ih]

theorem startAfter_prune {t : Tree} (h : t.isSealed = false) (kinds : List String) :
    t.prune.startAfter kinds = t.startAfter kinds := by
  rw [startAfter, start_prune, children_prune h, startAfter_map_prune, startAfter]

@[simp] theorem stopBefore_prune (t : Tree) (part : Option Tree) :
    t.prune.stopBefore (part.map prune) = t.stopBefore part := by
  simp [stopBefore, Function.comp_def]

@[simp] theorem stopBefore_prune_none (t : Tree) : t.prune.stopBefore none = t.stopBefore none := by
  simp [stopBefore]

@[simp] theorem headlineFrom_prune (src : String) (start : Nat) (t : Tree) (part : Option Tree) :
    t.prune.headlineFrom src start (part.map prune) = t.headlineFrom src start part := by
  simp [headlineFrom]

/-- A chain of accesses goes from role to role, so it never comes to a sealed node. -/
theorem isChain_prune {isHead : Tree → Bool} (hhead : ∀ t, isHead t.prune = isHead t)
    {links : List String} (hlinks : "ERROR" ∉ links) (role : String) (t : Tree) :
    t.prune.isChain isHead links role = t.isChain isHead links role := by
  fun_induction isChain isHead links role t with
  | case1 t hh => rw [isChain, if_pos ((hhead t).trans hh)]
  | case2 t hh hlink rest hrest ih =>
    have hopen : t.isSealed = false :=
      isSealed_of_kind rfl fun h => hlinks (by simpa [h] using hlink)
    rw [isChain, hhead, if_neg hh, kind_prune, if_pos hlink]
    split
    · next rest' hrest' =>
      rw [field?_prune hopen, hrest] at hrest'
      obtain rfl := Option.some.inj hrest'
      exact ih
    · next hrest' =>
      rw [field?_prune hopen, hrest] at hrest'
      simp at hrest'
  | case3 t hh hlink hrest =>
    have hopen : t.isSealed = false :=
      isSealed_of_kind rfl fun h => hlinks (by simpa [h] using hlink)
    rw [isChain, hhead, if_neg hh, kind_prune, if_pos hlink]
    split
    · next rest' hrest' =>
      rw [field?_prune hopen, hrest] at hrest'
      simp at hrest'
    · rfl
  | case4 t hh hlink => rw [isChain, hhead, if_neg hh, kind_prune, if_neg hlink]

end Tree

open CodeOutline.Tree

theorem Mark.ofDecorator_prune (src : String) {callKind : String} (hk : callKind ≠ "ERROR")
    {decorator : Tree} (h : decorator.isSealed = false) :
    Mark.ofDecorator src callKind decorator.prune = Mark.ofDecorator src callKind decorator := by
  rw [Mark.ofDecorator, Mark.ofDecorator, firstNamed?_prune h, Option.map_map]
  refine Option.map_congr fun expression _ => ?_
  simp only [Function.comp_apply, kind_prune, text_prune]
  split
  · next hcall =>
    have hopen := isSealed_of_kind (by simpa using hcall) hk
    simp only [fieldText?_prune hopen]
  · rfl

theorem CallSite.countArguments_map_prune {arguments : Option Tree}
    (h : ∀ t, arguments = some t → t.isSealed = false) :
    CallSite.countArguments (arguments.map prune) = CallSite.countArguments arguments := by
  cases arguments with
  | none => rfl
  | some t =>
    simp [CallSite.countArguments, namedChildren_prune (h t rfl), List.filter_map,
      Function.comp_def]

theorem CallSite.countArguments_field?_prune {t : Tree} (h : t.isSealed = false) (role : String) :
    CallSite.countArguments (t.prune.field? role) = CallSite.countArguments (t.field? role) := by
  rw [field?_prune h]
  exact countArguments_map_prune fun _ => isSealed_of_field?

theorem CallSite.countArguments_ofKind?_prune {t : Tree} (h : t.isSealed = false) {kind : String}
    (hk : kind ≠ "ERROR") :
    CallSite.countArguments (t.prune.ofKind? kind) = CallSite.countArguments (t.ofKind? kind) := by
  rw [ofKind?_prune h]
  exact countArguments_map_prune fun _ ht => isSealed_of_ofKind? ht hk

/-! ## Pruned places -/

def Frame.prune (f : Frame) : Frame where
  parent := f.parent.prune
  before := f.before.map Tree.prune
  after := f.after.map Tree.prune

namespace Cursor

/-- The place with all that is around it pruned. -/
def prune (c : Cursor) : Cursor := ⟨c.node.prune, c.frames.map Frame.prune⟩

@[simp] theorem node_prune (c : Cursor) : c.prune.node = c.node.prune := rfl

theorem map_node_map_prune (c : Option Cursor) :
    (c.map prune).map (·.node) = (c.map (·.node)).map Tree.prune := by
  cases c <;> rfl

@[simp] theorem depth_prune (c : Cursor) : c.prune.depth = c.depth := by simp [prune, depth]

@[simp] theorem before_prune (c : Cursor) : c.prune.before = c.before.map Tree.prune := by
  obtain ⟨node, frames⟩ := c
  cases frames <;> rfl

@[simp] theorem parent?_prune (c : Cursor) : c.prune.parent? = c.parent?.map prune := by
  obtain ⟨node, frames⟩ := c
  cases frames <;> rfl

theorem childrenFrom_prune (c : Cursor) (before todo : List Tree) :
    c.prune.childrenFrom (before.map Tree.prune) (todo.map Tree.prune) =
      (c.childrenFrom before todo).map prune := by
  induction todo generalizing before with
  | nil => rfl
  | cons t todo ih =>
    have hrest := ih (t :: before)
    rw [List.map_cons] at hrest
    rw [List.map_cons, childrenFrom, childrenFrom, List.map_cons, hrest]
    rfl

section Open

variable {c : Cursor} (h : c.node.isSealed = false)

include h

theorem children_prune : c.prune.children = c.children.map prune := by
  rw [children, node_prune, Tree.children_prune h]
  exact childrenFrom_prune c [] c.node.children

theorem namedChildren_prune : c.prune.namedChildren = c.namedChildren.map prune := by
  simp [namedChildren, children_prune h, List.filter_map, Function.comp_def]

theorem field?_prune (role : String) : c.prune.field? role = (c.field? role).map prune := by
  simp [field?, children_prune h, List.find?_map, Function.comp_def]

theorem ofKind?_prune (kind : String) : c.prune.ofKind? kind = (c.ofKind? kind).map prune := by
  simp [ofKind?, children_prune h, List.find?_map, Function.comp_def]

end Open

end Cursor

/-! ## Comments -/

namespace Comments

theorem upwards_map_prune (src : String) (isDoc : String → Bool) (skip : List String) (row : Nat)
    (ts : List Tree) : upwards src isDoc skip row (ts.map prune) =
      (upwards src isDoc skip row ts).map prune := by
  induction ts generalizing row with
  | nil => rfl
  | cons t ts ih =>
    simp only [List.map_cons, upwards, kind_prune, isComment_prune, text_prune, lastRow_prune,
      startRow_prune, ih]
    split
    · rfl
    · split
      · split <;> rfl
      · rfl

@[simp] theorem before_prune (src : String) (isDoc : String → Bool) (skip : List String)
    (c : Cursor) : before src isDoc skip c.prune = (before src isDoc skip c).map prune := by
  simp [before, upwards_map_prune]

theorem leadingFrom_map_prune (src : String) (isDoc : String → Bool) (preamble : List String)
    (taken ts : List Tree) : leadingFrom src isDoc preamble (taken.map prune) (ts.map prune) =
      ((leadingFrom src isDoc preamble taken ts).1.map prune,
        (leadingFrom src isDoc preamble taken ts).2.map prune) := by
  induction ts generalizing taken with
  | nil => rfl
  | cons t ts ih =>
    simp only [List.map_cons, leadingFrom, kind_prune, isComment_prune]
    split
    · exact ih taken
    · split
      · cases taken with
        | nil =>
          simp only [List.map_nil, text_prune]
          split
          · exact ih [t]
          · exact ih []
        | cons last earlier =>
          simp only [List.map_cons, text_prune, lastRow_prune, startRow_prune]
          split
          · exact ih (t :: last :: earlier)
          · rfl
      · rfl

theorem leading_prune (src : String) (isDoc : String → Bool) (preamble header : List String)
    {root : Tree} (h : root.isSealed = false) :
    leading src isDoc preamble header root.prune =
      (leading src isDoc preamble header root).map prune := by
  have hfrom := leadingFrom_map_prune src isDoc preamble [] root.children
  rw [List.map_nil] at hfrom
  rw [leading, leading, children_prune h, hfrom]
  obtain ⟨taken, next⟩ := leadingFrom src isDoc preamble [] root.children
  cases taken with
  | nil => rfl
  | cons last earlier =>
    cases next with
    | none => simp
    | some next =>
      simp only [List.map_cons, Option.map_some, kind_prune, isComment_prune, lastRow_prune,
        startRow_prune]
      split
      · simp
      · rfl

@[simp] theorem blockSummary_prune (src : String) (skip : List String) (c : Cursor) :
    blockSummary src skip c.prune = blockSummary src skip c := by
  simp [blockSummary, Option.bind_map, Function.comp_def]

theorem leadingBlockSummary_prune (src : String) (preamble header : List String) {root : Tree}
    (h : root.isSealed = false) :
    leadingBlockSummary src preamble header root.prune =
      leadingBlockSummary src preamble header root := by
  simp [leadingBlockSummary, leading_prune _ _ _ _ h, Option.bind_map, Function.comp_def]

end Comments

/-! ## Blind rules -/

/-- The item with its place pruned. -/
def Item.prune : Item → Item
  | .found finding => .found finding
  | .enter place scope => .enter place.prune scope

namespace Item

@[simp] theorem prune_found (finding : Finding) : (found finding).prune = found finding := rfl

@[simp] theorem prune_enter (place : Cursor) (scope : Scope) :
    (enter place scope).prune = enter place.prune scope := rfl

@[simp] theorem prune_imports (i : Import) : (imports i).prune = imports i := rfl

@[simp] theorem declare_prune (src : String) (span : Tree) (scope : Scope) (leaf : String)
    (kind : SymbolKind) (signature : String) (docstring : Option String) (marks : List Mark) :
    declare src span.prune scope leaf kind signature docstring marks =
      declare src span scope leaf kind signature docstring marks := by
  simp [declare]

@[simp] theorem prune_declare (src : String) (span : Tree) (scope : Scope) (leaf : String)
    (kind : SymbolKind) (signature : String) (docstring : Option String) (marks : List Mark) :
    (declare src span scope leaf kind signature docstring marks).prune =
      declare src span scope leaf kind signature docstring marks := rfl

@[simp] theorem map_prune_inherit (child parent : String) :
    (inherit child parent).map Item.prune = inherit child parent := by
  simp only [inherit]
  split <;> rfl

@[simp] theorem map_prune_within (place : Option Cursor) (scope : Scope) :
    (within place scope).map Item.prune = within (place.map Cursor.prune) scope := by
  cases place <;> rfl

end Item

namespace Rule

/-- Pruning a place prunes the places that the rule lists and changes nothing else. -/
def Blind (rule : Rule) : Prop :=
  ∀ scope c, c.node.isSealed = false → rule scope c.prune = (rule scope c).map Item.prune

theorem Blind.explore_prune {src : String} {rule : Rule} (h : rule.Blind) (hlocal : rule.Local src)
    (levels : Nat) (scope : Scope) (place : Cursor) (hplace : place.node.isSealed = false) :
    explore rule levels scope place.prune = explore rule levels scope place := by
  induction levels generalizing scope place with
  | zero => rfl
  | succ levels ih =>
    rw [explore_succ, explore_succ, Cursor.children_prune hplace, List.flatMap_map]
    refine List.flatMap_congr fun child _ => ?_
    rw [Cursor.node_prune, isError_prune]
    split
    · rfl
    · next herror =>
      have hopen := isSealed_of_isError (t := child.node) (by simpa using herror)
      rw [h scope child hopen, List.flatMap_map]
      refine List.flatMap_congr fun item hitem => ?_
      cases item with
      | found finding => rfl
      | enter inner innerScope => exact ih innerScope inner (hlocal scope child hopen _ hitem).2

/-- **Findings.** What a blind local rule finds in a tree is not changed by pruning it. -/
theorem Blind.findings_prune {src : String} {rule : Rule} (h : rule.Blind)
    (hlocal : rule.Local src) {root : Tree} (hroot : root.isSealed = false) :
    rule.findings root.prune = rule.findings root := by
  -- the pruned tree may be lower, so both sides go down as far as the higher tree
  let levels := max root.height root.prune.height
  calc rule.findings root.prune
      = explore rule levels {} (Cursor.root root.prune) :=
        hlocal.explore_congr (Nat.le_refl _) (Nat.le_max_right ..)
    _ = explore rule levels {} (Cursor.root root) :=
        h.explore_prune hlocal levels {} (Cursor.root root) hroot
    _ = rule.findings root := hlocal.explore_congr (Nat.le_max_left ..) (Nat.le_refl _)

end Rule

/-! ## Clear nodes -/

theorem Tree.clear_prune (t : Tree) : t.prune.clear = t.clear.map prune := by
  induction t with
  | node label children ih =>
    rw [clear_eq, clear_eq, isError_prune]
    split
    · rfl
    · next herror =>
      have hopen := isSealed_of_isError (t := .node label children) (by simpa using herror)
      rw [children_prune hopen, clearOf_eq_flatMap, clearOf_eq_flatMap, List.flatMap_map,
        List.map_cons, List.map_flatMap]
      exact congrArg _ (List.flatMap_congr ih)

theorem clearOf_map_prune (ts : List Tree) : clearOf (ts.map prune) = (clearOf ts).map prune := by
  rw [clearOf_eq_flatMap, clearOf_eq_flatMap, List.flatMap_map, List.map_flatMap]
  exact List.flatMap_congr fun t _ => t.clear_prune

theorem isError_of_mem_clearOf {t : Tree} {ts : List Tree} (h : t ∈ clearOf ts) :
    t.isError = false := by
  rw [clearOf_eq_flatMap, List.mem_flatMap] at h
  obtain ⟨s, _, h⟩ := h
  exact isError_of_mem_clear h

/-- Calls are not changed by pruning if what is seen of them is not. -/
theorem collectCalls_prune (src : String) (scopes : List Declared)
    {site? : Tree → Option CallSite}
    (hsite : ∀ t, t.isError = false → site? t.prune = site? t) {root : Tree}
    (hroot : root.isSealed = false) :
    collectCalls src scopes site? root.prune = collectCalls src scopes site? root := by
  simp only [collectCalls_eq_map, callSites, List.map_filterMap, children_prune hroot,
    clearOf_map_prune, List.filterMap_map]
  refine List.filterMap_congr fun t ht => ?_
  simp only [Function.comp_apply, hsite t (isError_of_mem_clearOf ht), Option.map_map]
  refine Option.map_congr fun site _ => ?_
  simp [CallSite.callAt]

/-! ## Blind dialects -/

/-- Nothing that the dialect says of a tree hangs on what is below sealed nodes. -/
structure Dialect.Blind (d : Dialect) : Prop where
  docstring : ∀ src root, root.isSealed = false →
    d.docstring src root.prune = d.docstring src root
  rule : ∀ src, (d.rule src).Blind
  isLocal : ∀ src, (d.rule src).Local src
  site? : ∀ src modules t, t.isError = false →
    d.site? src modules t.prune = d.site? src modules t

theorem Dialect.Blind.contents_prune {d : Dialect} (h : d.Blind) (src : String) {root : Tree}
    (hroot : root.isSealed = false) : d.contents src root.prune = d.contents src root := by
  rw [contents, contents, (h.rule src).findings_prune (h.isLocal src) hroot,
    h.docstring src root hroot, collectCalls_prune src _ (h.site? src _) hroot]

end CodeOutline
