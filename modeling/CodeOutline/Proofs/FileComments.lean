import CodeOutline.Dialects
import CodeOutline.Proofs.Nodes
import CodeOutline.Proofs.Reaching

/-!
# Comments of a file and of its declarations

The comments of a file are found from the top down, those of a declaration from the declaration up,
and the two ways have rules of their own for comments without documentation, for nodes that may
stand between, and for blank lines. Still no comment is found both ways: the comments of the file
and then those of the declaration are a selection of the nodes above the declaration, each taken
at most once.

The way down ends at some node, at the declaration at the latest. Every comment of the file stands
above that node, and the way up does not get past it: either the node itself ends it, or what comes
next does, a node of the preamble or the last comment of the file, which a blank line cuts off.
-/

namespace CodeOutline

/-- A kind of node that is a comment. -/
def isCommentKind (kind : String) : Bool := Text.hasPart "comment" kind

/-- How comments of documentation are told from others, and which kinds of nodes matter to the
search for them. -/
structure CommentRules where
  isDoc : String → Bool
  /-- Kinds that may stand between a declaration and its comments. -/
  skip : List String
  /-- Kinds that may stand before or between the comments of a file. -/
  preamble : List String
  /-- Kinds of statements that are no declarations. -/
  header : List String
  /-- The summary of a file, from the texts of its comments. -/
  fileSummary : List String → Option String
  /-- The summary of a declaration, from the texts of its comments. -/
  declarationSummary : List String → Option String
  isDoc_empty : isDoc "" = false := by decide
  skip_apart : ∀ kind ∈ skip, kind ∉ preamble ∧ kind ∉ header ∧ isCommentKind kind = false := by
    decide
  preamble_apart : ∀ kind ∈ preamble, isCommentKind kind = false := by decide

namespace CommentRules

/-- The comments of a file. -/
def ofFile (r : CommentRules) (src : String) (root : Tree) : List Tree :=
  Comments.leading src r.isDoc r.preamble r.header root

/-- The comments of a declaration. -/
def ofDeclaration (r : CommentRules) (src : String) (d : Cursor) : List Tree :=
  Comments.before src r.isDoc r.skip d

/-- Whether a node may be a declaration, as far as these rules know. -/
def MayDeclare (r : CommentRules) (t : Tree) : Prop :=
  Comments.isComment t = false ∧ t.kind ∉ r.preamble ∧ t.kind ∉ r.header

/-- A comment of documentation. -/
def IsDoc (r : CommentRules) (src : String) (t : Tree) : Prop :=
  Comments.isComment t = true ∧ r.isDoc (t.text src) = true

variable {r : CommentRules} {src : String}

theorem kind_not_mem_skip {t : Tree} (h : Comments.isComment t = true) : t.kind ∉ r.skip := by
  intro hskip
  have hkind : Comments.isComment t = false := (r.skip_apart _ hskip).2.2
  exact Bool.false_ne_true (hkind.symm.trans h)

theorem not_isDoc_of_preamble {t : Tree} (h : t.kind ∈ r.preamble) : ¬r.IsDoc src t := by
  intro hdoc
  have hkind : Comments.isComment t = false := r.preamble_apart _ h
  exact Bool.false_ne_true (hkind.symm.trans hdoc.1)

/-- A comment of documentation covers some text. -/
theorem IsDoc.start_lt_stop {t : Tree} (h : r.IsDoc src t) : t.start < t.stop := by
  by_contra hle
  have htext : t.text src = "" := if_pos (Nat.le_of_not_lt hle)
  rw [IsDoc, htext, r.isDoc_empty] at h
  exact Bool.false_ne_true h.2

/-! ## The way up -/

/-- The comments found on the way up from a row, nearest first. -/
def upwards (r : CommentRules) (src : String) (row : Nat) (above : List Tree) : List Tree :=
  Comments.upwards src r.isDoc r.skip row above

theorem upwards_skip {t : Tree} (h : t.kind ∈ r.skip) (row : Nat) (above : List Tree) :
    r.upwards src row (t :: above) = r.upwards src (t.startRow src) above := by
  rw [upwards, Comments.upwards, if_pos (List.contains_iff_mem.mpr h), upwards]

/-- A comment of documentation is taken, if no blank line comes after it. -/
theorem upwards_doc {t : Tree} (h : r.IsDoc src t) (row : Nat) (above : List Tree) :
    r.upwards src row (t :: above) =
      if t.lastRow src + 1 < row then [] else t :: r.upwards src (t.startRow src) above := by
  rw [upwards, Comments.upwards, if_neg (by simpa using kind_not_mem_skip h.1),
    if_pos (by simpa [IsDoc] using h), upwards]

/-- Any other node ends the way. -/
theorem upwards_stop {t : Tree} (hskip : t.kind ∉ r.skip) (h : ¬r.IsDoc src t) (row : Nat)
    (above : List Tree) : r.upwards src row (t :: above) = [] := by
  rw [upwards, Comments.upwards, if_neg (by simpa using hskip),
    if_neg (by simpa [IsDoc] using h)]

theorem skip_or_isDoc_or_neither (r : CommentRules) (src : String) (t : Tree) :
    t.kind ∈ r.skip ∨ r.IsDoc src t ∨ t.kind ∉ r.skip ∧ ¬r.IsDoc src t := by
  tauto

theorem upwards_sublist (row : Nat) (above : List Tree) :
    (r.upwards src row above).Sublist above := by
  induction above generalizing row with
  | nil => exact List.Sublist.slnil
  | cons t above ih =>
    rcases r.skip_or_isDoc_or_neither src t with h | h | ⟨hskip, h⟩
    · rw [upwards_skip h]
      exact (ih _).cons t
    · rw [upwards_doc h]
      split
      · exact List.nil_sublist _
      · exact (ih _).cons_cons t
    · rw [upwards_stop hskip h]
      exact List.nil_sublist _

/-- Where nothing is found above a node that the way up has reached, the nodes above it do not
matter. -/
theorem upwards_append {t : Tree} {far : List Tree}
    (h : ∀ row, r.upwards src row (t :: far) = r.upwards src row [t]) (row : Nat)
    (near : List Tree) :
    r.upwards src row (near ++ t :: far) = r.upwards src row (near ++ [t]) := by
  induction near generalizing row with
  | nil => exact h row
  | cons s near ih =>
    rw [List.cons_append, List.cons_append]
    rcases r.skip_or_isDoc_or_neither src s with h | h | ⟨hskip, h⟩
    · rw [upwards_skip h, upwards_skip h, ih]
    · rw [upwards_doc h, upwards_doc h, ih]
    · rw [upwards_stop hskip h, upwards_stop hskip h]

theorem upwards_cons_of_nothing {t : Tree} {far : List Tree}
    (h : r.upwards src (t.startRow src) far = []) (row : Nat) :
    r.upwards src row (t :: far) = r.upwards src row [t] := by
  have hnil : r.upwards src (t.startRow src) [] = [] := rfl
  rcases r.skip_or_isDoc_or_neither src t with ht | ht | ⟨hskip, ht⟩
  · rw [upwards_skip ht, upwards_skip ht, h, hnil]
  · rw [upwards_doc ht, upwards_doc ht, h, hnil]
  · rw [upwards_stop hskip ht, upwards_stop hskip ht]

/-! ## The way down -/

/-- What has been taken on the way down, after the nodes in `passed`. Both lists have the last node
first. Only nodes of the preamble have come after the last comment taken. -/
structure Taken (r : CommentRules) (src : String) (taken passed : List Tree) : Prop where
  sublist : taken.Sublist passed
  isDoc : ∀ t ∈ taken, r.IsDoc src t
  nearest : ∀ last earlier, taken = last :: earlier →
    ∃ gap far, passed = gap ++ last :: far ∧ ∀ g ∈ gap, g.kind ∈ r.preamble

namespace Taken

variable {taken passed : List Tree} {t : Tree}

theorem nil (r : CommentRules) (src : String) (passed : List Tree) : r.Taken src [] passed where
  sublist := List.nil_sublist passed
  isDoc := by simp
  nearest := by simp

theorem pass (h : r.Taken src taken passed) (ht : t.kind ∈ r.preamble) :
    r.Taken src taken (t :: passed) where
  sublist := h.sublist.cons t
  isDoc := h.isDoc
  nearest last earlier heq := by
    obtain ⟨gap, far, rfl, hgap⟩ := h.nearest last earlier heq
    exact ⟨t :: gap, far, rfl, List.forall_mem_cons.mpr ⟨ht, hgap⟩⟩

theorem take (h : r.Taken src taken passed) (ht : r.IsDoc src t) :
    r.Taken src (t :: taken) (t :: passed) where
  sublist := h.sublist.cons_cons t
  isDoc := List.forall_mem_cons.mpr ⟨ht, h.isDoc⟩
  nearest last earlier heq := by
    obtain ⟨rfl, -⟩ := List.cons.inj heq
    exact ⟨[], passed, rfl, by simp⟩

/-- Below a blank line after the last comment taken, nothing above is found on the way up. -/
theorem upwards_eq_nil {last : Tree} {earlier : List Tree} {row : Nat}
    (h : r.Taken src (last :: earlier) passed) (hrow : last.lastRow src + 1 < row) :
    r.upwards src row passed = [] := by
  obtain ⟨gap, far, rfl, hgap⟩ := h.nearest last earlier rfl
  cases gap with
  | nil =>
    have hlast : r.IsDoc src last := h.isDoc last List.mem_cons_self
    rw [List.nil_append, upwards_doc hlast, if_pos hrow]
  | cons g gap =>
    have hg : g.kind ∈ r.preamble := hgap g List.mem_cons_self
    have hskip : g.kind ∉ r.skip := fun hs => (r.skip_apart _ hs).1 hg
    exact upwards_stop hskip (not_isDoc_of_preamble hg) row (gap ++ last :: far)

end Taken

/-- The way down ends at the node `next`. A comment of documentation can end it only below a blank
line. -/
structure EndsAt (r : CommentRules) (src : String) (taken passed : List Tree) (next : Tree) : Prop
    extends r.Taken src taken passed where
  blank : r.IsDoc src next → ∀ last earlier, taken = last :: earlier →
    last.lastRow src + 1 < next.startRow src

/-- The comments taken on the way down, last first, and the node that ends the way. -/
def downwards (r : CommentRules) (src : String) (taken below : List Tree) :
    List Tree × Option Tree :=
  Comments.leadingFrom src r.isDoc r.preamble taken below

theorem downwards_stop {t : Tree} (hpreamble : t.kind ∉ r.preamble)
    (hcomment : Comments.isComment t = false) (taken below : List Tree) :
    r.downwards src taken (t :: below) = (taken, some t) := by
  simp [downwards, Comments.leadingFrom, hpreamble, hcomment]

/-- A step down passes a node, or ends there. -/
theorem downwards_cons {taken passed : List Tree} (h : r.Taken src taken passed) (t : Tree)
    (below : List Tree) :
    (∃ taken', r.Taken src taken' (t :: passed) ∧
      r.downwards src taken (t :: below) = r.downwards src taken' below) ∨
    r.EndsAt src taken passed t ∧ r.downwards src taken (t :: below) = (taken, some t) := by
  by_cases hpreamble : t.kind ∈ r.preamble
  · refine Or.inl ⟨taken, h.pass hpreamble, ?_⟩
    simp [downwards, Comments.leadingFrom, hpreamble]
  cases hcomment : Comments.isComment t with
  | true =>
    cases taken with
    | nil =>
      rw [downwards, Comments.leadingFrom, if_neg (by simpa using hpreamble), if_pos hcomment]
      by_cases hdoc : r.isDoc (t.text src) = true
      · exact Or.inl ⟨[t], h.take ⟨hcomment, hdoc⟩, if_pos hdoc⟩
      · exact Or.inl ⟨[], Taken.nil r src _, if_neg hdoc⟩
    | cons last earlier =>
      rw [downwards, Comments.leadingFrom, if_neg (by simpa using hpreamble), if_pos hcomment]
      split
      · next hnear =>
        have hdoc : r.isDoc (t.text src) = true := (Bool.and_eq_true _ _ ▸ hnear).1
        exact Or.inl ⟨t :: last :: earlier, h.take ⟨hcomment, hdoc⟩, rfl⟩
      · next hfar =>
        refine Or.inr ⟨⟨h, ?_⟩, rfl⟩
        rintro ⟨-, hdoc⟩ _ _ heq
        obtain ⟨rfl, -⟩ := List.cons.inj heq
        simpa [hdoc] using hfar
  | false =>
    refine Or.inr ⟨⟨h, ?_⟩, downwards_stop hpreamble hcomment taken below⟩
    intro hdoc
    exact absurd (hcomment.symm.trans hdoc.1) Bool.false_ne_true

/-- The way down ends above a node that may declare something, or there. -/
theorem exists_endsAt {d : Tree} (hd : r.MayDeclare d) {taken passed : List Tree}
    (h : r.Taken src taken passed) (above below : List Tree) :
    ∃ scanned next rest taken', above ++ [d] = scanned ++ next :: rest ∧
      r.downwards src taken (above ++ d :: below) = (taken', some next) ∧
      r.EndsAt src taken' (scanned.reverse ++ passed) next := by
  induction above generalizing taken passed with
  | nil =>
    refine ⟨[], d, [], taken, rfl, downwards_stop hd.2.1 hd.1 taken below, h, ?_⟩
    intro hdoc
    exact absurd (hd.1.symm.trans hdoc.1) Bool.false_ne_true
  | cons t above ih =>
    rcases downwards_cons h t (above ++ d :: below) with ⟨taken', htaken, hdown⟩ | ⟨hends, hdown⟩
    · obtain ⟨scanned, next, rest, final, heq, hfinal, hends⟩ := ih htaken
      refine ⟨t :: scanned, next, rest, final, congrArg (t :: ·) heq, hdown.trans hfinal, ?_⟩
      rwa [List.reverse_cons, List.append_assoc]
    · exact ⟨[], t, above ++ [d], taken, rfl, hdown, hends⟩

/-! ## Both ways -/

/-- A header, a comment or a blank line comes after the last comment. -/
def CutOff (r : CommentRules) (src : String) (last next : Tree) : Prop :=
  next.kind ∈ r.header ∨ Comments.isComment next = true ∨
    last.lastRow src + 1 < next.startRow src

/-- The comments of a file are those taken on the way down, if they are cut off from what comes
next. -/
theorem ofFile_eq_nil_or {root next : Tree} {taken : List Tree}
    (h : r.downwards src [] root.children = (taken, some next)) :
    r.ofFile src root = [] ∨ ∃ last earlier, taken = last :: earlier ∧
      r.ofFile src root = taken.reverse ∧ r.CutOff src last next := by
  rw [downwards] at h
  rw [ofFile, Comments.leading, h]
  cases taken with
  | nil => exact Or.inl rfl
  | cons last earlier =>
    dsimp only
    split
    · next hfile => exact Or.inr ⟨last, earlier, rfl, rfl, by simpa [CutOff, or_assoc] using hfile⟩
    · exact Or.inl rfl

/-- The way up does not get past the node that ends the way down. -/
theorem EndsAt.upwards_cons {last next : Tree} {earlier passed : List Tree}
    (h : r.EndsAt src (last :: earlier) passed next) (hcut : r.CutOff src last next) (row : Nat) :
    r.upwards src row (next :: passed) = r.upwards src row [next] := by
  by_cases hdoc : r.IsDoc src next
  · have hblank := h.blank hdoc last earlier rfl
    exact upwards_cons_of_nothing (h.upwards_eq_nil hblank) row
  rcases hcut with hheader | hcomment | hblank
  · have hskip : next.kind ∉ r.skip := fun hs => (r.skip_apart _ hs).2.1 hheader
    rw [upwards_stop hskip hdoc, upwards_stop hskip hdoc]
  · have hskip : next.kind ∉ r.skip := kind_not_mem_skip hcomment
    rw [upwards_stop hskip hdoc, upwards_stop hskip hdoc]
  · exact upwards_cons_of_nothing (h.upwards_eq_nil hblank) row

/-- Of the nodes above the one that ends the way down, none is found on the way up. -/
theorem EndsAt.upwards_sublist {last next : Tree} {earlier passed : List Tree}
    (h : r.EndsAt src (last :: earlier) passed next) (hcut : r.CutOff src last next) (row : Nat)
    (near : List Tree) :
    (r.upwards src row (near ++ next :: passed)).Sublist (near ++ [next]) := by
  rw [upwards_append (h.upwards_cons hcut)]
  exact CommentRules.upwards_sublist row (near ++ [next])

/-- A declaration that ends the way down has a blank line above it. -/
theorem EndsAt.upwards_declaration {last d : Tree} {earlier passed : List Tree}
    (h : r.EndsAt src (last :: earlier) passed d) (hcut : r.CutOff src last d)
    (hd : r.MayDeclare d) : r.upwards src (d.startRow src) passed = [] := by
  rcases hcut with hheader | hcomment | hblank
  · exact absurd hheader hd.2.2
  · exact absurd (hd.1.symm.trans hcomment) Bool.false_ne_true
  · exact h.upwards_eq_nil hblank

theorem ofDeclaration_eq {d : Cursor} {above : List Tree} (h : d.before = above.reverse) :
    r.ofDeclaration src d = (r.upwards src (d.node.startRow src) above.reverse).reverse := by
  rw [ofDeclaration, Comments.before, h, upwards]

theorem ofFile_append_ofDeclaration_sublist {root : Tree} {d : Cursor} {above below : List Tree}
    (hchildren : root.children = above ++ d.node :: below) (hbefore : d.before = above.reverse)
    (hd : r.MayDeclare d.node) :
    (r.ofFile src root ++ r.ofDeclaration src d).Sublist above := by
  obtain ⟨scanned, next, rest, taken, heq, hdown, hends⟩ :=
    exists_endsAt hd (Taken.nil r src []) above below
  rw [← hchildren] at hdown
  rw [List.append_nil] at hends
  rw [ofDeclaration_eq hbefore]
  rcases ofFile_eq_nil_or hdown with hfile | ⟨last, earlier, rfl, hfile, hcut⟩
  · rw [hfile, List.nil_append]
    simpa using (upwards_sublist _ above.reverse).reverse
  rw [hfile]
  have hscanned : (last :: earlier).reverse.Sublist scanned := by
    simpa using hends.sublist.reverse
  -- the way down ends at the declaration itself, or there are nodes between
  rcases List.eq_nil_or_concat rest with rfl | ⟨more, e, rfl⟩
  · obtain ⟨rfl, hnode⟩ := List.append_inj' heq rfl
    obtain rfl : d.node = next := List.singleton_inj.mp hnode
    rw [hends.upwards_declaration hcut hd, List.reverse_nil, List.append_nil]
    exact hscanned
  · have hsplit : above = scanned ++ next :: more := by
      have hlast : above ++ [d.node] = (scanned ++ next :: more) ++ [e] := by simpa using heq
      exact (List.append_inj' hlast rfl).1
    have hown := (hends.upwards_sublist hcut (d.node.startRow src) more.reverse).reverse
    rw [hsplit]
    exact hscanned.append (by simpa using hown)

theorem isDoc_of_mem_upwards {row : Nat} {above : List Tree} {t : Tree}
    (h : t ∈ r.upwards src row above) : r.IsDoc src t := by
  induction above generalizing row with
  | nil => cases h
  | cons s above ih =>
    rcases r.skip_or_isDoc_or_neither src s with hs | hs | ⟨hskip, hs⟩
    · rw [upwards_skip hs] at h
      exact ih h
    · rw [upwards_doc hs] at h
      split at h
      · cases h
      · rcases List.mem_cons.mp h with rfl | h
        · exact hs
        · exact ih h
    · rw [upwards_stop hskip hs] at h
      cases h

theorem disjoint_of_sublist {root t : Tree} {d : Cursor} {above below : List Tree}
    (hframed : root.Framed) (hchildren : root.children = above ++ t :: below)
    (h : (r.ofFile src root ++ r.ofDeclaration src d).Sublist above) :
    (r.ofFile src root).Disjoint (r.ofDeclaration src d) := by
  have hapart := hframed.apart
  rw [hchildren, List.pairwise_append] at hapart
  have hparts := List.pairwise_append.mp (hapart.1.sublist h)
  intro t hfile hown
  have hle : t.stop ≤ t.start := hparts.2.2 t hfile t hown
  have hdoc : r.IsDoc src t := isDoc_of_mem_upwards (List.mem_reverse.mp hown)
  exact Nat.not_le_of_lt hdoc.start_lt_stop hle

end CommentRules

/-! ## The languages -/

namespace Cursor

theorem exists_of_mem_childrenFrom {c d : Cursor} {passed todo : List Tree}
    (h : d ∈ c.childrenFrom passed todo) :
    ∃ above below, todo = above ++ d.node :: below ∧ d.before = above.reverse ++ passed := by
  induction todo generalizing passed with
  | nil => cases h
  | cons t todo ih =>
    rcases List.mem_cons.mp h with rfl | h
    · exact ⟨[], todo, rfl, rfl⟩
    · obtain ⟨above, below, rfl, hbefore⟩ := ih h
      exact ⟨t :: above, below, rfl, by simpa using hbefore⟩

end Cursor

/-- The rules for blocks that begin with two stars: the first one is for a file, and the nearest one
for a declaration. -/
def CommentRules.ofBlocks (skip preamble header : List String)
    (skip_apart : ∀ kind ∈ skip, kind ∉ preamble ∧ kind ∉ header ∧ isCommentKind kind = false)
    (preamble_apart : ∀ kind ∈ preamble, isCommentKind kind = false) : CommentRules where
  isDoc := Comments.isDocBlock
  skip
  preamble
  header
  fileSummary texts := texts.head?.bind Summary.ofBlockComment
  declarationSummary texts := texts.getLast?.bind Summary.ofBlockComment
  skip_apart
  preamble_apart

def Java.commentRules : CommentRules :=
  .ofBlocks [] [] ["package_declaration", "import_declaration", "module_declaration"]
    (by decide) (by decide)

def TypeScript.commentRules : CommentRules :=
  .ofBlocks ["decorator"] ["hash_bang_line"] ["import_statement"] (by decide) (by decide)

def Php.commentRules : CommentRules :=
  .ofBlocks [] ["php_tag", "text"]
    ["namespace_definition", "namespace_use_declaration", "declare_statement"]
    (by decide) (by decide)

/-- All comments in a run count, and they hold markup. -/
def CSharp.commentRules : CommentRules where
  isDoc := CSharp.isDoc
  skip := []
  preamble := []
  header := ["using_directive", "extern_alias_directive"] ++ CSharp.namespaceKinds
  fileSummary texts := if texts.isEmpty then none else Summary.ofXmlComments texts
  declarationSummary texts := if texts.isEmpty then none else Summary.ofXmlComments texts

namespace Language

/-- The languages in which the comments at the top of a file document it, and those above a
declaration the declaration. -/
def commentRules? : Language → Option CommentRules
  | java => some Java.commentRules
  | typescript | tsx | javascript => some TypeScript.commentRules
  | php => some Php.commentRules
  | csharp => some CSharp.commentRules
  | python | go | rust => none

/-- The summary that such a language gives the declaration at a place. -/
def summaryAt (l : Language) (src : String) (c : Cursor) : Option String :=
  match l with
  | java => Java.docstring src c
  | typescript | tsx | javascript => TypeScript.docstring src c
  | php => Comments.blockSummary src [] c
  | csharp => CSharp.docstring src c
  | python | go | rust => none

/-- The place above which the comments of a declaration stand: its own, or that of the statement
that exports it. -/
def commented (l : Language) (c : Cursor) : Cursor :=
  match l with
  | typescript | tsx | javascript => (TypeScript.export? c).getD c
  | _ => c

variable {l : Language} {r : CommentRules}

theorem docstring_eq_fileSummary (hr : l.commentRules? = some r) (src : String) (root : Tree) :
    l.dialect.docstring src root = r.fileSummary ((r.ofFile src root).map (Tree.text src)) := by
  cases l <;> cases hr
  case csharp =>
    simp only [dialect, CSharp.dialect, CSharp.summary, CommentRules.ofFile,
      CSharp.commentRules, List.isEmpty_map]
  all_goals
    simp only [dialect, Java.dialect, TypeScript.dialect, Php.dialect, Java.commentRules,
      TypeScript.commentRules, Php.commentRules, CommentRules.ofFile, CommentRules.ofBlocks,
      Comments.leadingBlockSummary, List.head?_map, Option.bind_map,
      Function.comp_def]

theorem summaryAt_eq_declarationSummary (hr : l.commentRules? = some r) (src : String)
    (c : Cursor) : l.summaryAt src c =
      r.declarationSummary ((r.ofDeclaration src (l.commented c)).map (Tree.text src)) := by
  cases l <;> cases hr
  case csharp =>
    simp only [summaryAt, commented, CSharp.docstring, CSharp.summary, CommentRules.ofDeclaration,
      CSharp.commentRules, List.isEmpty_map]
  all_goals
    simp only [summaryAt, commented, Java.docstring, TypeScript.docstring,
      Java.commentRules, TypeScript.commentRules, Php.commentRules, CommentRules.ofDeclaration,
      CommentRules.ofBlocks, Comments.blockSummary, List.getLast?_map,
      Option.bind_map, Function.comp_def]

/-- A comment belongs to a file or to one of its declarations, never to both. -/
theorem comment_of_file_or_declaration (hr : l.commentRules? = some r) (src : String)
    (root : Tree) :
    l.dialect.docstring src root = r.fileSummary ((r.ofFile src root).map (Tree.text src)) ∧
    (∀ c, l.summaryAt src c =
      r.declarationSummary ((r.ofDeclaration src (l.commented c)).map (Tree.text src))) ∧
    ∀ d ∈ (Cursor.root root).children, r.MayDeclare d.node →
      (r.ofFile src root ++ r.ofDeclaration src d).Sublist d.before.reverse ∧
      (root.Framed → (r.ofFile src root).Disjoint (r.ofDeclaration src d)) := by
  refine ⟨docstring_eq_fileSummary hr src root, summaryAt_eq_declarationSummary hr src, ?_⟩
  intro d hd hdeclare
  obtain ⟨above, below, hchildren, hbefore⟩ := Cursor.exists_of_mem_childrenFrom hd
  rw [List.append_nil] at hbefore
  have hsub : (r.ofFile src root ++ r.ofDeclaration src d).Sublist above :=
    CommentRules.ofFile_append_ofDeclaration_sublist hchildren hbefore hdeclare
  refine ⟨by rwa [hbefore, List.reverse_reverse], fun hframed => ?_⟩
  exact CommentRules.disjoint_of_sublist hframed hchildren hsub

end Language

namespace TypeScript

def documentedText : String :=
  "#!/usr/bin/env node\n/** File. */\n\n/** Class. */\nclass A \x7b\x7d"

def documentedHead : List Tree :=
  [.node ⟨"hash_bang_line", true, false, false, none, 0, 19⟩ [],
    .node ⟨"comment", true, false, false, none, 20, 32⟩ [],
    .node ⟨"comment", true, false, false, none, 34, 47⟩ []]

def documentedClass : Tree :=
  .node ⟨"class_declaration", true, false, false, none, 48, 58⟩
    [.node ⟨"class", false, false, false, none, 48, 53⟩ [],
      .node ⟨"type_identifier", true, false, false, some "name", 54, 55⟩ [],
      .node ⟨"class_body", true, false, false, some "body", 56, 58⟩ []]

def documentedProgram : Tree :=
  .node ⟨"program", true, false, false, none, 0, 58⟩ (documentedHead ++ [documentedClass])

def documentedClassAt : Cursor :=
  (Cursor.root documentedProgram).childAt documentedHead documentedClass []

/-- The first of two comments is the file's, and the second the class's. -/
theorem comments_documentedProgram :
    documentedProgram.Framed ∧ commentRules.MayDeclare documentedClass ∧
    (commentRules.ofFile documentedText documentedProgram).map Tree.start = [20] ∧
    (commentRules.ofDeclaration documentedText documentedClassAt).map Tree.start = [34] ∧
    (commentRules.ofFile documentedText documentedProgram).Disjoint
      (commentRules.ofDeclaration documentedText documentedClassAt) := by
  have hframed : documentedProgram.Framed := by decide +kernel
  have hdeclare : commentRules.MayDeclare documentedClass := by
    refine ⟨by decide, by decide, by decide⟩
  have hmem : documentedClassAt ∈ (Cursor.root documentedProgram).children :=
    Cursor.childAt_mem_children rfl
  have hrules : Language.typescript.commentRules? = some commentRules := rfl
  have hall := Language.comment_of_file_or_declaration hrules documentedText documentedProgram
  exact ⟨hframed, hdeclare, by decide +kernel, by decide +kernel,
    (hall.2.2 documentedClassAt hmem hdeclare).2 hframed⟩

end TypeScript

end CodeOutline
