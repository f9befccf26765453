import CodeOutline.Proofs.UseTrees.Slashes

/-!
# Comments in use trees

Comments are not taken out of a `use` declaration before it is read: they are read as part of the
names beside them. So a comment changes the imports, with two exceptions, where what it is read into
comes to nothing. It may stand before the braces of a group in which there is no leaf at all, or
behind `self as` where `self` stands for nothing. Comments are *idle* if all of them stand there.

**Only idle comments change nothing (`use_ignores_comments_iff`).** If no comment holds a bracket, a
quote or a comma, a declaration makes the same imports as the same declaration without its comments
if and only if its comments are idle.

The proof follows the slash that each comment begins with. A comment before the braces of a group
goes into the path of all that is in it, one behind the closing brace keeps the group from being
read as one, and any other is in the text of a leaf. In each case the slash is in some import
(`UseTree.exists_mentions`), and no import of a leaf has one.
-/

namespace CodeOutline.Rust

open Text (isBlank)
open Chars (narrow StartsSolid)

/-! ## The same tree without comments -/

def Gap.withoutComments (g : Gap) : Gap := ⟨g.trivia.filter fun x => x.comment?.isNone⟩

/-- With a space for each comment, where something has to stand. -/
def Gap.spaced (g : Gap) : Gap :=
  ⟨g.trivia.map fun x => if x.comment?.isSome then .space else x⟩

def Step.withoutComments (s : Step) : Step := ⟨s.name, [], []⟩

def Rename.withoutComments (r : Rename) : Rename where
  before := r.before.spaced
  apart := by simpa [Gap.spaced] using r.apart
  after := r.after.spaced
  apart' := by simpa [Gap.spaced] using r.apart'
  name := r.name

namespace UseTree

mutual

def withoutComments : UseTree → UseTree
  | nothing gap => nothing gap.withoutComments
  | leaf before path target rename after =>
    leaf before.withoutComments (path.map Step.withoutComments) target
      (rename.map Rename.withoutComments) after.withoutComments
  | group before path parts after =>
    group before.withoutComments (path.map Step.withoutComments) (withoutCommentsOf parts)
      after.withoutComments

def withoutCommentsOf : List UseTree → List UseTree
  | [] => []
  | t :: ts => t.withoutComments :: withoutCommentsOf ts

end

theorem withoutCommentsOf_eq (ts : List UseTree) :
    withoutCommentsOf ts = ts.map withoutComments := by
  induction ts with
  | nil => rfl
  | cons t ts ih => rw [withoutCommentsOf, ih, List.map_cons]

end UseTree

theorem Gap.comments_withoutComments (g : Gap) : g.withoutComments.comments = [] := by
  refine List.filterMap_eq_nil_iff.mpr fun x hx => ?_
  simpa using (List.mem_filter.mp hx).2

theorem Gap.comments_spaced (g : Gap) : g.spaced.comments = [] := by
  refine List.filterMap_eq_nil_iff.mpr fun x hx => ?_
  obtain ⟨y, -, rfl⟩ := List.mem_map.mp hx
  cases y <;> rfl

theorem comments_map_withoutComments (path : List Step) :
    (path.map Step.withoutComments).flatMap Step.comments = [] := by
  refine List.flatMap_eq_nil_iff.mpr fun s hs => ?_
  obtain ⟨s, -, rfl⟩ := List.mem_map.mp hs
  rfl

theorem map_name_withoutComments (path : List Step) :
    (path.map Step.withoutComments).map Step.name = path.map Step.name := by
  rw [List.map_map]
  rfl

namespace UseTree

theorem comments_withoutComments (t : UseTree) : t.withoutComments.comments = [] := by
  induction t with
  | nothing gap => rw [withoutComments, comments, Gap.comments_withoutComments]
  | leaf before path target rename after =>
    have hrename : ((rename.map Rename.withoutComments).map Rename.comments).getD [] = [] := by
      cases rename with
      | none => rfl
      | some r =>
        show r.before.spaced.comments ++ r.after.spaced.comments = []
        rw [Gap.comments_spaced, Gap.comments_spaced, List.append_nil]
    rw [withoutComments, comments, Gap.comments_withoutComments, comments_map_withoutComments,
      hrename, Gap.comments_withoutComments]
    rfl
  | group before path parts after ih =>
    have hparts : commentsOf (withoutCommentsOf parts) = [] := by
      rw [commentsOf_eq, withoutCommentsOf_eq]
      refine List.flatMap_eq_nil_iff.mpr fun p hp => ?_
      obtain ⟨part, hpart, rfl⟩ := List.mem_map.mp hp
      exact ih part hpart
    rw [withoutComments, comments, Gap.comments_withoutComments, comments_map_withoutComments,
      hparts, Gap.comments_withoutComments]
    rfl

theorem leaves_withoutComments (t : UseTree) (above : List Identifier) :
    t.withoutComments.leaves above = t.leaves above := by
  induction t generalizing above with
  | nothing gap => rfl
  | leaf before path target rename after =>
    rw [withoutComments, leaves, leaves, map_name_withoutComments, Option.map_map]
    rfl
  | group before path parts after ih =>
    rw [withoutComments, leaves, leaves, map_name_withoutComments, withoutCommentsOf_eq,
      leavesOf_eq, leavesOf_eq, List.flatMap_map]
    exact List.flatMap_congr fun p hp => ih p hp _

end UseTree

/-- The clause with all comments taken out of it. -/
def UseClause.withoutComments (u : UseClause) : UseClause where
  rooted := u.rooted
  tree := u.tree.withoutComments
  tight := by
    intro hrooted x hx
    have hleading : u.tree.withoutComments.leading = u.tree.leading.withoutComments := by
      cases u.tree <;> rfl
    rw [hleading] at hx
    exact u.tight hrooted x (List.mem_of_mem_filter hx)

/-! ## Idle comments -/

/-- Whether the first thing in a gap is a blank. -/
def Gap.startsBlank (g : Gap) : Bool := g.trivia.head?.any fun x => x.comment?.isNone

namespace UseTree

mutual

/-- Whether nothing is read from a tree: no leaf is in it, and no comment that is taken for one. -/
def barren : UseTree → Bool
  | nothing gap => gap.comments.isEmpty
  | leaf _ _ _ _ _ => false
  | group _ _ parts after => after.comments.isEmpty && barrenAll parts

def barrenAll : List UseTree → Bool
  | [] => true
  | t :: ts => t.barren && barrenAll ts

end

mutual

/-- Whether no comment in a tree shows, where `above` are the names of the groups around it. -/
def idle (above : List Identifier) : UseTree → Bool
  | nothing gap => gap.comments.isEmpty
  | leaf before path target rename after =>
    before.comments.isEmpty && (path.flatMap Step.comments).isEmpty &&
      match rename with
      | none => after.comments.isEmpty
      | some r =>
        r.before.comments.isEmpty &&
          ((r.after.comments.isEmpty && after.comments.isEmpty) ||
            (r.after.startsBlank &&
              (UseLeaf.import? ⟨above, path.map Step.name, target, r.name⟩).isNone))
  | group before path parts after =>
    after.comments.isEmpty &&
      ((before.comments.isEmpty && (path.flatMap Step.comments).isEmpty &&
          idleAll (above ++ path.map Step.name) parts) || barrenAll parts)

def idleAll (above : List Identifier) : List UseTree → Bool
  | [] => true
  | t :: ts => t.idle above && idleAll above ts

end

theorem barrenAll_iff {ts : List UseTree} :
    barrenAll ts = true ↔ ∀ t ∈ ts, t.barren = true := by
  induction ts with
  | nil => simp [barrenAll]
  | cons t ts ih => simp [barrenAll, ih]

theorem idleAll_iff {above : List Identifier} {ts : List UseTree} :
    idleAll above ts = true ↔ ∀ t ∈ ts, t.idle above = true := by
  induction ts with
  | nil => simp [idleAll]
  | cons t ts ih => simp [idleAll, ih]

theorem exists_of_barrenAll_eq_false {ts : List UseTree} (h : barrenAll ts = false) :
    ∃ t ∈ ts, t.barren = false := by
  by_contra hall
  simp only [not_exists, not_and, Bool.not_eq_false] at hall
  rw [barrenAll_iff.mpr hall] at h
  cases h

theorem exists_of_idleAll_eq_false {above : List Identifier} {ts : List UseTree}
    (h : idleAll above ts = false) : ∃ t ∈ ts, t.idle above = false := by
  by_contra hall
  simp only [not_exists, not_and, Bool.not_eq_false] at hall
  rw [idleAll_iff.mpr hall] at h
  cases h

theorem leaves_of_barren {t : UseTree} (h : t.barren = true) (above : List Identifier) :
    t.leaves above = [] := by
  induction t generalizing above with
  | nothing gap => rfl
  | leaf before path target rename after => cases h
  | group before path parts after ih =>
    rw [barren, Bool.and_eq_true, barrenAll_iff] at h
    rw [leaves, leavesOf_eq]
    exact List.flatMap_eq_nil_iff.mpr fun p hp => ih p hp (h.2 p hp) _

theorem expand_of_barren {t : UseTree} (hloose : t.LooseComments) (h : t.barren = true)
    (root : String) : expand root (narrow t.chars) = [] := by
  induction t generalizing root with
  | nothing gap =>
    rw [barren, List.isEmpty_iff] at h
    rw [chars]
    exact expand_of_blank root (Chars.isBlank_of_mem_narrow (Gap.isBlank_of_mem h))
  | leaf before path target rename after => cases h
  | group before path parts after ih =>
    rw [barren, Bool.and_eq_true, List.isEmpty_iff, barrenAll_iff] at h
    rw [expand_group root hloose h.1]
    exact List.flatMap_eq_nil_iff.mpr fun p hp =>
      ih p hp (hloose.of_group.2.1 p hp) (h.2 p hp) _

end UseTree

/-! ## Where comments stand -/

theorem Comment.exists_cons (c : Comment) : ∃ rest, c.chars = '/' :: rest := by
  cases c with
  | line text h => exact ⟨_, rfl⟩
  | block text h => exact ⟨_, rfl⟩

/-- The first comment of a gap has only blanks before it. -/
theorem Gap.exists_slash {g : Gap} (h : g.comments ≠ []) :
    ∃ bs rest, (∀ c ∈ bs, isBlank c = true) ∧ g.chars = bs ++ '/' :: rest := by
  obtain ⟨trivia⟩ := g
  induction trivia with
  | nil => exact absurd rfl h
  | cons x trivia ih =>
    cases x with
    | blank c hc =>
      obtain ⟨bs, rest, hbs, heq⟩ := ih h
      refine ⟨c :: bs, rest, ?_, congrArg (c :: ·) heq⟩
      intro d hd
      rcases List.mem_cons.mp hd with rfl | hd
      · exact hc
      · exact hbs d hd
    | comment c =>
      obtain ⟨rest, hc⟩ := c.exists_cons
      refine ⟨[], rest ++ Gap.chars ⟨trivia⟩, by simp, ?_⟩
      show c.chars ++ Gap.chars ⟨trivia⟩ = _
      rw [hc]
      rfl

theorem Gap.slash_mem {g : Gap} (h : g.comments ≠ []) : '/' ∈ g.chars := by
  obtain ⟨bs, rest, -, heq⟩ := g.exists_slash h
  rw [heq]
  simp

theorem slash_mem_commentChars {comments : List Comment} (h : comments ≠ []) :
    '/' ∈ commentChars comments := by
  obtain ⟨c, rest, rfl⟩ := List.exists_cons_of_ne_nil h
  obtain ⟨cs, hc⟩ := c.exists_cons
  rw [commentChars, List.flatMap_cons, hc]
  exact List.mem_cons_self

theorem slash_mem_pathChars {path : List Step} (h : path.flatMap Step.comments ≠ []) :
    '/' ∈ pathChars path := by
  rw [ne_eq, List.flatMap_eq_nil_iff, not_forall] at h
  obtain ⟨s, h⟩ := h
  rw [Classical.not_imp, Step.comments, List.append_eq_nil_iff, not_and_or] at h
  obtain ⟨hs, h⟩ := h
  refine List.mem_flatMap.mpr ⟨s, hs, ?_⟩
  rw [Step.chars, List.mem_append, List.mem_append, List.mem_append]
  rcases h with h | h
  · exact .inr (.inl (slash_mem_commentChars h))
  · exact .inr (.inr (.inr (slash_mem_commentChars h)))

/-- What follows the first name of a path begins with `:` or with a comment. -/
theorem Step.exists_cons (s : Step) (cs : List Char) :
    ∃ x rest, (x = ':' ∨ x = '/') ∧ s.chars ++ cs = s.name.chars ++ x :: rest := by
  obtain ⟨name, before, after⟩ := s
  rw [Step.chars, List.append_assoc]
  cases before with
  | nil => exact ⟨':', _, .inl rfl, rfl⟩
  | cons c before =>
    obtain ⟨rest, hc⟩ := c.exists_cons
    refine ⟨'/', rest ++ commentChars before ++ (colons ++ commentChars after) ++ cs, .inr rfl, ?_⟩
    simp [commentChars, hc]

/-! ## Texts that are not `self` -/

/-- If a text behind a gap is read as `self`, no comment is in the gap. -/
theorem ReadsSelf.of_gap {g : Gap} {cs : List Char} (hcs : StartsSolid cs)
    (hcolon : ∀ c ∈ cs.head?, c ≠ ':') (hslash : '/' ∈ g.chars ++ cs)
    (h : ReadsSelf (narrow (g.chars ++ cs))) :
    g.comments = [] ∧ ∃ tail, narrow cs = "self".toList ++ tail ∧ StartsAs tail := by
  by_cases hclean : g.comments = []
  · have hblank := Gap.isBlank_of_mem hclean
    have hbehind : '/' ∈ cs := by
      refine (List.mem_append.mp hslash).resolve_left fun hmem => ?_
      exact absurd (hblank '/' hmem) (by decide)
    rw [hcs.narrow_append] at h
    refine ⟨hclean, h.exists_eq (Chars.isBlank_of_mem_narrow hblank) hcs.narrow ?_
      (Chars.mem_narrow_of_mem (by decide) hbehind)⟩
    rwa [hcs.head?_narrow]
  · obtain ⟨bs, rest, hbs, heq⟩ := g.exists_slash hclean
    rw [heq, List.append_assoc, List.cons_append, Chars.narrow_append_cons (by decide)] at h
    obtain ⟨tail, heq, -⟩ := h.exists_eq (Chars.isBlank_of_mem_narrow hbs)
      (Chars.startsSolid_cons (by decide) _) (by simp) List.mem_cons_self
    exact absurd (List.cons.inj heq).1 (by decide)

/-- A name can be told from `self`, whatever follows the two. -/
theorem Identifier.eq_self {i : Identifier} {cs tail : List Char}
    (hcs : ∀ c ∈ cs.head?, isNameChar c = false) (htail : StartsAs tail)
    (h : i.chars ++ cs = "self".toList ++ tail) : i.chars = "self".toList ∧ cs = tail := by
  refine Chars.run_unique (fun c => i.isNameChar_of_mem) (List.all_eq_true.mp (by decide)) hcs ?_ h
  intro c hc
  have hblank := htail.isBlank_head? c hc
  by_contra hname
  rw [Bool.not_eq_false] at hname
  simp [not_isBlank_of_isNameChar hname] at hblank

/-- A path does not begin with `self` and a blank. -/
theorem narrow_pathChars_ne_self (s : Step) (path : List Step) {cs tail : List Char}
    (htail : StartsAs tail) : narrow (pathChars (s :: path) ++ cs) ≠ "self".toList ++ tail := by
  obtain ⟨x, rest, hx, heq⟩ := s.exists_cons (pathChars path ++ cs)
  have hblank : isBlank x = false := by
    rcases hx with rfl | rfl <;> decide
  have hname : isNameChar x = false := by
    rcases hx with rfl | rfl <;> decide
  rw [pathChars, List.flatMap_cons, ← pathChars, List.append_assoc, heq,
    Chars.narrow_solid_append s.name.not_isBlank_of_mem, Chars.narrow_cons hblank]
  intro h
  obtain ⟨-, rfl⟩ := Identifier.eq_self (by simpa using hname) htail h
  rw [htail.isBlank_head? x rfl] at hblank
  cases hblank

theorem Gap.exists_narrow_of_startsBlank {g : Gap} (h : g.startsBlank = true) (cs : List Char) :
    ∃ rest, narrow (g.chars ++ cs) = ' ' :: rest := by
  obtain ⟨- | ⟨x, trivia⟩⟩ := g
  · cases h
  · cases x with
    | blank d hd =>
      refine ⟨Chars.narrowFrom true (Gap.chars ⟨trivia⟩ ++ cs), ?_⟩
      show Chars.narrowFrom false (d :: (Gap.chars ⟨trivia⟩ ++ cs)) = _
      rw [Chars.narrowFrom, if_pos hd, if_neg Bool.false_ne_true]
    | comment d => cases h

/-- A gap that does not begin with a blank begins with a comment. -/
theorem Gap.exists_narrow_of_not_startsBlank {g : Gap} (hne : g.trivia ≠ [])
    (h : g.startsBlank = false) (cs : List Char) :
    ∃ rest, narrow (g.chars ++ cs) = '/' :: rest := by
  obtain ⟨- | ⟨x, trivia⟩⟩ := g
  · exact absurd rfl hne
  · cases x with
    | blank d hd => cases h
    | comment d =>
      obtain ⟨rest, hd⟩ := d.exists_cons
      refine ⟨narrow (rest ++ Gap.chars ⟨trivia⟩ ++ cs), ?_⟩
      show narrow ((d.chars ++ Gap.chars ⟨trivia⟩) ++ cs) = _
      rw [hd, List.cons_append, List.cons_append, Chars.narrow_cons (by decide)]

theorem Gap.not_isNameChar_head? (g : Gap) (h : g.trivia ≠ []) (cs : List Char) :
    ∀ c ∈ (narrow (g.chars ++ cs)).head?, isNameChar c = false := by
  intro c hc
  by_cases hblank : g.startsBlank = true
  · obtain ⟨rest, heq⟩ := Gap.exists_narrow_of_startsBlank hblank cs
    rw [heq] at hc
    obtain rfl : ' ' = c := Option.some.inj hc
    decide
  · obtain ⟨rest, heq⟩ :=
      Gap.exists_narrow_of_not_startsBlank h (Bool.eq_false_iff.mpr hblank) cs
    rw [heq] at hc
    obtain rfl : '/' = c := Option.some.inj hc
    decide

theorem Gap.clean_of_startsAs {g : Gap} {cs : List Char} (h : StartsAs (narrow (g.chars ++ cs))) :
    g.comments = [] := by
  by_contra hcomments
  obtain ⟨bs, tail, hbs, heq⟩ := g.exists_slash hcomments
  rw [heq, List.append_assoc, List.cons_append, Chars.narrow_append_cons (by decide)] at h
  obtain ⟨rest, has⟩ :=
    h.exists_eq (Chars.isBlank_of_mem_narrow hbs) (Chars.startsSolid_cons (by decide) _)
  exact absurd (List.cons.inj has).1 (by decide)

theorem Gap.not_startsAs (g : Gap) : ¬ StartsAs (narrow g.chars) := by
  intro h
  rw [← List.append_nil g.chars] at h
  have hblank := Gap.isBlank_of_mem (Gap.clean_of_startsAs h)
  rw [Chars.startsSolid_nil.narrow_append] at h
  obtain ⟨rest, has⟩ :=
    h.exists_eq (Chars.isBlank_of_mem_narrow hblank) Chars.startsSolid_nil.narrow
  cases has

/-- Where a new name is found, no comment is beside the `as`. -/
theorem Rename.startsBlank_of_startsAs {r : Rename} {cs : List Char}
    (h : StartsAs (narrow (r.chars ++ cs))) :
    r.before.comments = [] ∧ r.after.startsBlank = true := by
  have hclean : r.before.comments = [] := by
    rw [Rename.chars, List.append_assoc] at h
    exact Gap.clean_of_startsAs h
  refine ⟨hclean, ?_⟩
  rw [r.narrow_chars_append hclean] at h
  by_contra hblank
  obtain ⟨tail, hslash⟩ := Gap.exists_narrow_of_not_startsBlank r.apart'
    (Bool.eq_false_iff.mpr hblank) (r.name.chars ++ cs)
  rw [hslash] at h
  have hspace : StartsAs ([' '] ++ ('a' :: 's' :: '/' :: tail)) := h
  obtain ⟨rest, has⟩ := hspace.exists_eq (by simp; decide) (Chars.startsSolid_cons (by decide) _)
  exact absurd (List.cons.inj (List.cons.inj (List.cons.inj has).2).2).1 (by decide)

theorem expand_ne_nil_of_unclosed {root : String} (hroot : root ≠ "") {cs : List Char} {c : Char}
    (hc : c ∈ cs) (hblank : isBlank c = false) (hcolon : c ≠ ':')
    (hlast : '\x7d' ∉ (bare (narrow cs)).getLast?) : expand root (narrow cs) ≠ [] := by
  have hmem := mem_bare hblank hcolon (Chars.mem_narrow_of_mem hblank hc)
  rw [expand_of_unclosed root (List.ne_nil_of_mem hmem) hlast]
  cases hnone : leafImport? root (String.ofList (bare (narrow cs))) with
  | none => exact absurd (leafImport?_eq_none_iff.mp hnone).2 hroot
  | some i => simp

/-! ## Trees that are not `self` -/

/-- The text of a path begins with a name. -/
theorem head?_pathChars_append {cs : List Char} (h : ∀ c ∈ cs.head?, c ≠ ':') (path : List Step) :
    ∀ c ∈ (pathChars path ++ cs).head?, c ≠ ':' := by
  cases path with
  | nil => exact h
  | cons s path =>
    intro c hc
    rw [pathChars, List.flatMap_cons, Step.chars, List.append_assoc, List.append_assoc,
      List.head?_append_of_ne_nil _ s.name.ne_nil] at hc
    exact ne_colon_of_isNameChar (s.name.isNameChar_of_mem (List.mem_of_head? hc))

/-- What follows the name of a leaf is no part of it. -/
theorem not_isNameChar_head?_narrow (rename : Option Rename) (after : Gap) :
    ∀ c ∈ (narrow ((rename.map Rename.chars).getD [] ++ after.chars)).head?,
      isNameChar c = false := by
  cases rename with
  | none =>
    rw [Option.map_none, Option.getD_none, List.nil_append, ← List.append_nil after.chars]
    by_cases hafter : after.trivia = []
    · simp [Gap.chars, hafter, narrow, Chars.narrowFrom]
    · exact after.not_isNameChar_head? hafter []
  | some r =>
    rw [Option.map_some, Option.getD_some, Rename.chars, List.append_assoc]
    exact r.before.not_isNameChar_head? r.apart _

namespace UseTree

variable {before after : Gap} {path : List Step} {target : Target} {rename : Option Rename}
  {parts : List UseTree}

theorem not_readsSelf_nothing (h : before.comments ≠ []) : ¬ ReadsSelf (narrow before.chars) := by
  intro hself
  rw [← List.append_nil before.chars] at hself
  refine h (hself.of_gap Chars.startsSolid_nil (by simp) ?_).1
  exact List.mem_append_left _ (before.slash_mem h)

theorem not_readsSelf_group (hslash : '/' ∈ (group before path parts after).chars) :
    ¬ ReadsSelf (narrow (group before path parts after).chars) := by
  intro hself
  rw [chars] at hslash hself
  obtain ⟨-, tail, heq, htail⟩ := hself.of_gap
    (startsSolid_pathChars_append (Chars.startsSolid_cons (by decide) _) path)
    (head?_pathChars_append (by simp) path) hslash
  cases path with
  | nil =>
    rw [pathChars, List.flatMap_nil, List.nil_append, Chars.narrow_cons (by decide)] at heq
    exact absurd (List.cons.inj heq).1 (by decide)
  | cons s path => exact narrow_pathChars_ne_self s path htail heq

/-- Only a leaf `self as` has comments that it may not show. -/
theorem readsSelf_leaf (hslash : '/' ∈ (leaf before path target rename after).chars)
    (hself : ReadsSelf (narrow (leaf before path target rename after).chars)) :
    before.comments = [] ∧ path = [] ∧ target.name = "self" ∧
      ∃ r, rename = some r ∧ r.before.comments = [] ∧ r.after.startsBlank = true := by
  rw [chars] at hslash hself
  have hcolon : ∀ c ∈ (target.chars ++ ((rename.map Rename.chars).getD [] ++ after.chars)).head?,
      c ≠ ':' := by
    intro c hc
    rcases target.head?_append _ c hc with hname | rfl
    · exact ne_colon_of_isNameChar hname
    · decide
  obtain ⟨hbefore, tail, heq, htail⟩ := hself.of_gap
    (startsSolid_pathChars_append (target.startsSolid_append _) path)
    (head?_pathChars_append hcolon path) hslash
  cases path with
  | cons s path => exact absurd heq (narrow_pathChars_ne_self s path htail)
  | nil =>
    rw [pathChars, List.flatMap_nil, List.nil_append,
      Chars.narrow_solid_append target.not_isBlank_of_mem] at heq
    cases target with
    | all => exact absurd (List.cons.inj heq).1 (by decide)
    | one i =>
      obtain ⟨hname, rfl⟩ := Identifier.eq_self (not_isNameChar_head?_narrow rename after) htail heq
      refine ⟨hbefore, rfl, congrArg String.ofList hname, ?_⟩
      cases rename with
      | none => exact absurd htail after.not_startsAs
      | some r => exact ⟨r, rfl, Rename.startsBlank_of_startsAs htail⟩

/-! ## Every other comment shows -/

theorem slash_mem_leaf (h : (leaf before path target rename after).comments ≠ []) :
    '/' ∈ (leaf before path target rename after).chars := by
  rw [chars]
  simp only [List.mem_append]
  by_contra hslash
  simp only [not_or] at hslash
  obtain ⟨hbefore, hpath, -, hrename, hafter⟩ := hslash
  refine h ?_
  rw [comments, List.append_eq_nil_iff, List.append_eq_nil_iff, List.append_eq_nil_iff]
  refine ⟨?_, ?_, ?_, ?_⟩
  · by_contra hne
    exact hbefore (before.slash_mem hne)
  · by_contra hne
    exact hpath (slash_mem_pathChars hne)
  · cases rename with
    | none => rfl
    | some r =>
      show r.before.comments ++ r.after.comments = []
      by_contra hne
      refine hrename ?_
      show '/' ∈ r.before.chars ++ ('a' :: 's' :: (r.after.chars ++ r.name.chars))
      rw [List.append_eq_nil_iff, not_and_or] at hne
      rcases hne with hne | hne
      · exact List.mem_append_left _ (r.before.slash_mem hne)
      · refine List.mem_append_right _ (List.mem_cons_of_mem _ (List.mem_cons_of_mem _ ?_))
        exact List.mem_append_left _ (r.after.slash_mem hne)
  · by_contra hne
    exact hafter (after.slash_mem hne)

theorem unclosed_nothing (h : (nothing before).LooseComments) (hne : before.comments ≠ []) :
    '\x7d' ∉ (bare (narrow before.chars)).getLast? := by
  have hloose := (loose_nothing h).narrow
  rw [chars] at hloose
  rw [← List.nil_append (narrow before.chars)]
  exact unclosed_append (Chars.mem_narrow_of_mem (by decide) (before.slash_mem hne))
    (hloose.not_mem (by decide))

/-- A comment behind the closing brace keeps a group from being read as one. -/
theorem unclosed_group (h : (group before path parts after).LooseComments)
    (hne : after.comments ≠ []) :
    '\x7d' ∉ (bare (narrow (group before path parts after).chars)).getLast? := by
  have htext : narrow (group before path parts after).chars =
      narrow (before.chars ++ pathChars path) ++
        ('\x7b' :: ([','].intercalate (parts.map fun p => narrow p.chars) ++ ['\x7d'])) ++
          narrow after.chars := by
    rw [narrow_group]
    simp only [List.append_assoc, List.cons_append, List.nil_append]
  rw [htext]
  exact unclosed_append (Chars.mem_narrow_of_mem (by decide) (after.slash_mem hne))
    (h.of_group.2.2.narrow.not_mem (by decide))

theorem slash_mem_group (hne : after.comments ≠ []) :
    '/' ∈ (group before path parts after).chars := by
  rw [chars]
  simp [after.slash_mem hne]

/-- Below some path, something is read from every tree that is not barren. -/
theorem expand_ne_nil {t : UseTree} (hloose : t.LooseComments) (h : t.barren = false)
    {root : String} (hroot : root ≠ "") : expand root (narrow t.chars) ≠ [] := by
  induction t generalizing root with
  | nothing gap =>
    rw [barren, List.isEmpty_eq_false_iff] at h
    rw [chars]
    exact expand_ne_nil_of_unclosed hroot (gap.slash_mem h) (by decide) (by decide)
      (unclosed_nothing hloose h)
  | leaf before path target rename after =>
    obtain ⟨c, rest, htarget⟩ := List.exists_cons_of_ne_nil target.ne_nil
    have hc : c ∈ target.chars := htarget ▸ List.mem_cons_self
    have hmem : c ∈ (leaf before path target rename after).chars := by
      rw [chars]
      simp [hc]
    refine expand_ne_nil_of_unclosed hroot hmem (target.not_isBlank_of_mem c hc) ?_
      (unclosed_leaf hloose)
    rintro rfl
    exact target.colon_notMem hc
  | group before path parts after ih =>
    by_cases hafter : after.comments = []
    · rw [barren, hafter, List.isEmpty_nil, Bool.true_and] at h
      obtain ⟨p, hp, hbarren⟩ := exists_of_barrenAll_eq_false h
      rw [expand_group root hloose hafter]
      intro hnil
      exact ih p hp (hloose.of_group.2.1 p hp) hbarren (joinPath_ne_empty hroot _)
        (List.flatMap_eq_nil_iff.mp hnil p hp)
    · exact expand_ne_nil_of_unclosed hroot (slash_mem_group hafter) (by decide) (by decide)
        (unclosed_group hloose hafter)

theorem idle_leaf_of_clean {above : List Identifier}
    (h : (leaf before path target rename after).comments = []) :
    (leaf before path target rename after).idle above = true := by
  simp only [comments, List.append_eq_nil_iff] at h
  obtain ⟨hbefore, hpath, hrename, hafter⟩ := h
  cases rename with
  | none => simp [idle, hbefore, hpath, hafter]
  | some r =>
    obtain ⟨has, hname⟩ := List.append_eq_nil_iff.mp hrename
    simp [idle, hbefore, hpath, hafter, has, hname]

/-- At the top, a leaf that is read as `self` has idle comments. -/
theorem idle_leaf_of_readsSelf (hslash : '/' ∈ (leaf before path target rename after).chars)
    (hself : ReadsSelf (narrow (leaf before path target rename after).chars)) :
    (leaf before path target rename after).idle [] = true := by
  obtain ⟨hbefore, rfl, htarget, r, rfl, hclean, hspace⟩ := readsSelf_leaf hslash hself
  simp [idle, hbefore, hclean, hspace, UseLeaf.import?, htarget]

/-- **A comment that is not idle shows:** its slash is in some import. -/
theorem exists_mentions {t : UseTree} (hloose : t.LooseComments) {above : List Identifier}
    (h : t.idle above = false) :
    ∃ i ∈ expand (pathText above) (narrow t.chars), i.Mentions '/' := by
  induction t generalizing above with
  | nothing gap =>
    rw [idle, List.isEmpty_eq_false_iff] at h
    rw [chars]
    exact exists_mentions_of_unclosed (Chars.mem_narrow_of_mem (by decide) (gap.slash_mem h))
      (unclosed_nothing hloose h) fun hself => absurd hself (not_readsSelf_nothing h)
  | leaf before path target rename after =>
    have hslash : '/' ∈ (leaf before path target rename after).chars := by
      refine slash_mem_leaf fun hclean => ?_
      rw [idle_leaf_of_clean hclean] at h
      cases h
    refine exists_mentions_of_unclosed (Chars.mem_narrow_of_mem (by decide) hslash)
      (unclosed_leaf hloose) fun hself hroot => ?_
    rw [pathText_eq_empty_iff.mp hroot, idle_leaf_of_readsSelf hslash hself] at h
    cases h
  | group before path parts after ih =>
    by_cases hafter : after.comments = []
    · rw [idle, hafter, List.isEmpty_nil, Bool.true_and, Bool.or_eq_false_iff] at h
      obtain ⟨hidle, hbarren⟩ := h
      by_cases hbase : before.comments = [] ∧ path.flatMap Step.comments = []
      · -- the comment is in one of the parts
        rw [hbase.1, hbase.2, List.isEmpty_nil, Bool.true_and, Bool.true_and] at hidle
        obtain ⟨p, hp, hshows⟩ := exists_of_idleAll_eq_false hidle
        obtain ⟨i, hi, hmentions⟩ := ih p hp (hloose.of_group.2.1 p hp) hshows
        rw [expand_group_of_clean hloose hbase.1 hbase.2 hafter]
        exact ⟨i, List.mem_flatMap.mpr ⟨p, hp, hi⟩, hmentions⟩
      · -- the comment is in the path to the parts, and something is read from one of them
        have hslash : '/' ∈ before.chars ++ pathChars path := by
          rw [List.mem_append]
          rcases not_and_or.mp hbase with hne | hne
          · exact .inl (before.slash_mem hne)
          · exact .inr (slash_mem_pathChars hne)
        have hroot : '/' ∈ (joinPath (pathText above)
            (basePath (narrow (before.chars ++ pathChars path)))).toList :=
          mem_joinPath (.inr (slash_mem_basePath (Chars.mem_narrow_of_mem (by decide) hslash)))
        obtain ⟨p, hp, hreads⟩ := exists_of_barrenAll_eq_false hbarren
        have hsome : joinPath (pathText above)
            (basePath (narrow (before.chars ++ pathChars path))) ≠ "" := by
          intro hempty
          simp [hempty] at hroot
        have hne := expand_ne_nil (hloose.of_group.2.1 p hp) hreads hsome
        obtain ⟨i, hi⟩ := List.exists_mem_of_ne_nil _ hne
        rw [expand_group _ hloose hafter]
        exact ⟨i, List.mem_flatMap.mpr ⟨p, hp, hi⟩, mentions_of_expand hroot hi⟩
    · have hslash : '/' ∈ (group before path parts after).chars := slash_mem_group hafter
      exact exists_mentions_of_unclosed (Chars.mem_narrow_of_mem (by decide) hslash)
        (unclosed_group hloose hafter) fun hself => absurd hself (not_readsSelf_group hslash)

/-! ## Idle comments do not -/

/-- A leaf `self as` with nothing above it makes no import, whatever follows. -/
theorem readsSelf_of_startsBlank {r : Rename} (hbefore : before.comments = [])
    (htarget : target.name = "self") (hclean : r.before.comments = [])
    (hspace : r.after.startsBlank = true) :
    ReadsSelf (narrow (leaf before [] target (some r) after).chars) := by
  have hself : target.chars = "self".toList := by
    have htext := congrArg String.toList htarget
    rwa [Target.name, String.toList_ofList] at htext
  obtain ⟨rest, hrest⟩ := Gap.exists_narrow_of_startsBlank hspace (r.name.chars ++ after.chars)
  -- the new name is what follows
  obtain ⟨c, hc⟩ := List.exists_mem_of_ne_nil _ r.name.ne_nil
  have hsolid := r.name.not_isBlank_of_mem c hc
  have hmem : c ∈ rest := by
    have hall := Chars.mem_narrow_of_mem hsolid
      (List.mem_append_right r.after.chars (List.mem_append_left after.chars hc))
    rw [hrest] at hall
    refine (List.mem_cons.mp hall).resolve_left fun hblank => ?_
    rw [hblank] at hsolid
    exact absurd hsolid (by decide)
  have htext : narrow (leaf before [] target (some r) after).chars =
      narrow before.chars ++ ("self".toList ++ (" as ".toList ++ rest)) := by
    rw [chars, pathChars, List.flatMap_nil, List.nil_append,
      (target.startsSolid_append _).narrow_append,
      Chars.narrow_solid_append target.not_isBlank_of_mem, hself, Option.map_some,
      Option.getD_some, r.narrow_chars_append hclean, hrest]
    rfl
  rw [htext]
  exact readsSelf_of_eq (Chars.isBlank_of_mem_narrow (Gap.isBlank_of_mem hbefore)) hsolid hmem

/-- **With idle comments,** a tree is read as the imports of its leaves. -/
theorem expand_of_idle {t : UseTree} (hloose : t.LooseComments) {above : List Identifier}
    (h : t.idle above = true) :
    expand (pathText above) (narrow t.chars) = (t.leaves above).filterMap UseLeaf.import? := by
  induction t generalizing above with
  | nothing gap =>
    rw [idle, List.isEmpty_iff] at h
    have hclean : (nothing gap).comments = [] := h
    exact expand_tree hclean above
  | leaf before path target rename after =>
    by_cases hclean : (leaf before path target rename after).comments = []
    · exact expand_tree hclean above
    · cases rename with
      | none =>
        simp only [idle, Bool.and_eq_true, List.isEmpty_iff] at h
        exact absurd (by simp [comments, h]) hclean
      | some r =>
        simp only [idle, Bool.and_eq_true, Bool.or_eq_true, List.isEmpty_iff] at h
        obtain ⟨⟨hbefore, hpath⟩, has, ⟨hname, hafter⟩ | ⟨hspace, hnone⟩⟩ := h
        · exact absurd (by simp [comments, Rename.comments, hbefore, hpath, has, hname, hafter])
            hclean
        · have himport : UseLeaf.import? ⟨above, path.map Step.name, target, r.name⟩ = none :=
            Option.isNone_iff_eq_none.mp hnone
          obtain ⟨rfl, hnames, htarget⟩ := UseLeaf.import?_eq_none_iff.mp himport
          obtain rfl := List.map_eq_nil_iff.mp hnames
          have hself : ReadsSelf (narrow (leaf before [] target (some r) after).chars) :=
            readsSelf_of_startsBlank hbefore htarget has hspace
          have hleaf : UseLeaf.import? ⟨[], [], target, r.name⟩ = none := himport
          have hroot : pathText [] = "" := rfl
          rw [hroot, hself.expand_eq_nil (unclosed_leaf hloose)]
          show [] = List.filterMap UseLeaf.import? [⟨[], [], target, r.name⟩]
          rw [List.filterMap_cons, hleaf]
          rfl
  | group before path parts after ih =>
    rw [idle, Bool.and_eq_true, Bool.or_eq_true, Bool.and_eq_true, Bool.and_eq_true,
      List.isEmpty_iff, List.isEmpty_iff, List.isEmpty_iff, idleAll_iff, barrenAll_iff] at h
    obtain ⟨hafter, ⟨⟨hbefore, hpath⟩, hparts⟩ | hparts⟩ := h
    · rw [expand_group_of_clean hloose hbefore hpath hafter, leaves, leavesOf_eq,
        List.filterMap_flatMap]
      exact List.flatMap_congr fun p hp => ih p hp (hloose.of_group.2.1 p hp) (hparts p hp)
    · have hbarren : (group before path parts after).barren = true := by
        rw [barren, hafter, barrenAll_iff.mpr hparts]
        rfl
      rw [expand_of_barren hloose hbarren, leaves_of_barren hbarren]
      rfl

end UseTree

/-! ## Clauses -/

theorem UseClause.not_mentions {u : UseClause} {i : Import} (h : i ∈ u.imports) :
    ¬ i.Mentions '/' := by
  obtain ⟨l, -, hl⟩ := List.mem_filterMap.mp h
  exact l.not_mentions hl

theorem UseClause.imports_withoutComments (u : UseClause) : u.withoutComments.imports = u.imports :=
  congrArg (List.filterMap UseLeaf.import?) (u.tree.leaves_withoutComments [])

/-- The imports are those of the leaves if and only if the comments are idle. -/
theorem UseClause.expand_eq_imports_iff {u : UseClause} (hloose : u.tree.LooseComments) :
    expand "" (Text.collapse u.text).toList = u.imports ↔ u.tree.idle [] = true := by
  rw [u.expand_text]
  refine ⟨fun h => ?_, fun h => UseTree.expand_of_idle hloose h⟩
  by_contra hidle
  obtain ⟨i, hi, hmentions⟩ := UseTree.exists_mentions hloose (Bool.not_eq_true _ ▸ hidle)
  exact UseClause.not_mentions (h ▸ hi) hmentions

/-- **Only idle comments change nothing.** Of two declarations that differ in comments alone, where
none of these holds a bracket, a quote or a comma, the imports are the same if and only if the
comments are idle. -/
theorem use_ignores_comments_iff {u : UseClause} (hloose : u.tree.LooseComments) {src src' : String}
    {t t' : Tree} (ht : t.fieldText? src "argument" = some u.text)
    (ht' : t'.fieldText? src' "argument" = some u.withoutComments.text) :
    useItems src t = useItems src' t' ↔ u.tree.idle [] = true := by
  have hinjective : Function.Injective (List.map Item.imports) :=
    List.map_injective_iff.mpr fun i j h => by cases h; rfl
  have hwithout : expand "" (Text.collapse u.withoutComments.text).toList = u.imports := by
    rw [UseClause.expand_text, ← u.imports_withoutComments]
    exact expand_tree u.tree.comments_withoutComments []
  rw [useItems, useItems, ht, ht', ← UseClause.expand_eq_imports_iff hloose, ← hwithout]
  exact hinjective.eq_iff

/-- Two names in a group, with a comment between them. -/
def commentInGroup : UseClause where
  rooted := false
  tree :=
    .group {} [⟨.ofText "a", [], []⟩]
      [.leaf {} [] (.one (.ofText "b")) none {},
        .leaf ⟨[.space, .comment (.block " c ".toList (by decide)), .space]⟩ []
          (.one (.ofText "d")) none {}] {}
  tight := nofun

/-- A comment before a group without leaves, and one behind `self as`. -/
def idleComments : UseClause where
  rooted := false
  tree :=
    .group {} []
      [.leaf {} [] (.one (.ofText "a")) none {},
        .group ⟨[.space, .comment (.block " b ".toList (by decide))]⟩ [⟨.ofText "c", [], []⟩]
          [.nothing ⟨[.space]⟩] {},
        .leaf ⟨[.space]⟩ [] (.one (.ofText "self"))
          (some (.spaced .space [] .space [.comment (.line " d".toList (by decide))]
            (.ofText "x"))) {}] {}
  tight := nofun

theorem comments_idleAndNot :
    let shown := "use a::\x7bb, /* c */ d\x7d;"
    let idle := "use \x7ba, /* b */c::\x7b \x7d, self as // d\nx\x7d;"
    useItems shown (useNode 21) ≠ useItems "use a::\x7bb,  d\x7d;" (useNode 14) ∧
      useItems idle (useNode 38) =
        useItems "use \x7ba, c::\x7b \x7d, self as  x\x7d;" (useNode 27) := by
  intro shown idle
  have htexts : (useNode 21).fieldText? shown "argument" = some commentInGroup.text ∧
      (useNode 14).fieldText? "use a::\x7bb,  d\x7d;" "argument" =
        some commentInGroup.withoutComments.text ∧
      (useNode 38).fieldText? idle "argument" = some idleComments.text ∧
      (useNode 27).fieldText? "use \x7ba, c::\x7b \x7d, self as  x\x7d;" "argument" =
        some idleComments.withoutComments.text := by
    decide +kernel
  obtain ⟨hshown, hshown', hidle, hidle'⟩ := htexts
  have hloose : commentInGroup.tree.LooseComments ∧ idleComments.tree.LooseComments := by
    rw [UseTree.LooseComments, UseTree.LooseComments]
    decide
  refine ⟨fun h => ?_, ?_⟩
  · exact absurd ((use_ignores_comments_iff hloose.1 hshown hshown').mp h) (by decide)
  · exact (use_ignores_comments_iff hloose.2 hidle hidle').mpr (by decide)

/-- The comment is taken for a part of the name behind it. -/
theorem comment_read_as_name :
    (useNode 21).fieldText? "use a::\x7bb, /* c */ d\x7d;" "argument" =
        some commentInGroup.text ∧
      useItems "use a::\x7bb, /* c */ d\x7d;" (useNode 21) =
        [Item.imports (.member "a" "b" none), Item.imports (.member "a" "/* c */ d" none)] ∧
      commentInGroup.withoutComments.imports = [.member "a" "b" none, .member "a" "d" none] := by
  have htext : (useNode 21).fieldText? "use a::\x7bb, /* c */ d\x7d;" "argument" =
      some commentInGroup.text := by decide +kernel
  have hread : expand "" (Text.collapse commentInGroup.text).toList =
      [.member "a" "b" none, .member "a" "/* c */ d" none] := by decide +kernel
  refine ⟨htext, ?_, by decide⟩
  rw [useItems, htext]
  exact congrArg (List.map Item.imports) hread

end CodeOutline.Rust
