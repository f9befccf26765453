import CodeOutline.Proofs.UseTrees.Expansion

/-!
# Reading a written use tree

The text of a use tree, read again. Comments stay in the text, and whatever brackets, quotes or
commas are in them count. Where all comments are *loose*, with none of these characters, the scan
for commas sees exactly those between the parts of a group (`UseTree.passes`). So a group that
nothing but blanks follows is read as its parts, each below the path that its base gives
(`expand_group`).

Blanks never matter beyond one space, and neither does a `::` at the very start
(`UseClause.expand_text`).
-/

namespace CodeOutline.Rust

open Text (isBlank)
open Chars (narrow StartsSolid)

/-! ## Characters -/

theorem isLoose_of_isBlank {c : Char} (h : isBlank c = true) : isLoose c = true := by
  have hsolid : (['"', '\'', '\x60', '(', '[', '\x7b', ')', ']', '\x7d', ','].all
      fun d => !isBlank d) = true := by decide
  rw [isLoose, decide_eq_true_eq]
  intro hmem
  have hc := List.all_eq_true.mp hsolid c hmem
  simp [h] at hc

theorem step_eq_self {c : Char} (h : isLoose c = true) (depth : Int) :
    Nesting.step false ⟨depth, none, false⟩ c = ⟨depth, none, false⟩ := by
  simp only [isLoose, List.mem_cons, List.not_mem_nil, or_false, decide_eq_true_eq, not_or] at h
  simp [Nesting.step, Nesting.isQuote, Nesting.isOpener, Nesting.isCloser, h]

theorem isLoose_of_isNameChar {c : Char} (h : isNameChar c = true) : isLoose c = true := by
  simp only [isNameChar, Bool.and_eq_true] at h
  exact h.1.1.1.1

theorem not_isBlank_of_isNameChar {c : Char} (h : isNameChar c = true) : isBlank c = false := by
  simp only [isNameChar, Bool.and_eq_true, Bool.not_eq_true'] at h
  exact h.1.1.1.2

theorem not_isBlank_of_mem_colons : ∀ c ∈ colons, isBlank c = false := by
  have hsolid : (colons.all fun c => !isBlank c) = true := by decide
  simpa using hsolid

theorem Identifier.isNameChar_of_mem {i : Identifier} {c : Char} (h : c ∈ i.chars) :
    isNameChar c = true :=
  List.all_eq_true.mp i.isName c h

/-- A text in which no character matters to the scan for commas. -/
def Loose (cs : List Char) : Prop := ∀ c ∈ cs, isLoose c = true

instance (cs : List Char) : Decidable (Loose cs) :=
  decidable_of_iff (cs.all isLoose = true) List.all_eq_true

namespace Loose

variable {cs ds : List Char}

theorem append (hc : Loose cs) (hd : Loose ds) : Loose (cs ++ ds) := by
  intro c h
  exact (List.mem_append.mp h).elim (hc c) (hd c)

theorem cons {c : Char} (hc : isLoose c = true) (hd : Loose ds) : Loose (c :: ds) := by
  intro d h
  rcases List.mem_cons.mp h with rfl | h
  · exact hc
  · exact hd d h

theorem flatMap {α : Type} {f : α → List Char} {as : List α} (h : ∀ a ∈ as, Loose (f a)) :
    Loose (as.flatMap f) := by
  intro c hc
  obtain ⟨a, ha, hc⟩ := List.mem_flatMap.mp hc
  exact h a ha c hc

theorem narrow (h : Loose cs) : Loose (narrow cs) := by
  intro c hc
  rcases Chars.mem_narrowFrom hc with rfl | hc
  · decide
  · exact h c hc

theorem not_mem (h : Loose cs) {c : Char} (hc : isLoose c = false) : c ∉ cs := by
  intro hmem
  simp [h c hmem] at hc

theorem passes (h : Loose cs) (depth : Int) : Chars.Passes ',' false ⟨depth, none, false⟩ cs :=
  Chars.Passes.of_forall (h.not_mem (by decide)) fun c hc => step_eq_self (h c hc) depth

end Loose

/-! ## The pieces of a tree -/

theorem Identifier.loose (i : Identifier) : Loose i.chars := by
  intro c hc
  exact isLoose_of_isNameChar (isNameChar_of_mem hc)

theorem Target.loose (t : Target) : Loose t.chars := by
  cases t with
  | one name => exact name.loose
  | all => decide

theorem loose_commentChars {comments : List Comment} (h : ∀ c ∈ comments, Loose c.chars) :
    Loose (commentChars comments) :=
  Loose.flatMap h

theorem Gap.loose {g : Gap} (h : ∀ c ∈ g.comments, Loose c.chars) : Loose g.chars := by
  refine Loose.flatMap fun x hx => ?_
  cases x with
  | blank c hc => exact Loose.cons (isLoose_of_isBlank hc) (by simp [Loose])
  | comment c => exact h c (List.mem_filterMap.mpr ⟨_, hx, rfl⟩)

/-- Only blanks stand in a gap without comments. -/
theorem Gap.isBlank_of_mem {g : Gap} (h : g.comments = []) : ∀ c ∈ g.chars, isBlank c = true := by
  intro c hc
  obtain ⟨x, hx, hc⟩ := List.mem_flatMap.mp hc
  cases x with
  | blank d hd => rwa [List.mem_singleton.mp hc]
  | comment d =>
    have hmem : d ∈ g.comments := List.mem_filterMap.mpr ⟨_, hx, rfl⟩
    simp [h] at hmem

theorem Step.loose {s : Step} (h : ∀ c ∈ s.comments, Loose c.chars) : Loose s.chars := by
  have hcolons : Loose colons := by decide
  refine s.name.loose.append ((loose_commentChars fun c hc => h c ?_).append
    (hcolons.append (loose_commentChars fun c hc => h c ?_)))
  · exact List.mem_append_left _ hc
  · exact List.mem_append_right _ hc

theorem loose_pathChars {path : List Step} (h : ∀ c ∈ path.flatMap Step.comments, Loose c.chars) :
    Loose (pathChars path) :=
  Loose.flatMap fun s hs => s.loose fun c hc => h c (List.mem_flatMap.mpr ⟨s, hs, hc⟩)

theorem Rename.loose {r : Rename} (h : ∀ c ∈ r.comments, Loose c.chars) : Loose r.chars := by
  refine (Gap.loose fun c hc => h c (List.mem_append_left _ hc)).append ?_
  refine Loose.cons (by decide) (Loose.cons (by decide) (Loose.append ?_ r.name.loose))
  exact Gap.loose fun c hc => h c (List.mem_append_right _ hc)

namespace UseTree

/-- All comments of a tree are loose. -/
def LooseComments (t : UseTree) : Prop := ∀ c ∈ t.comments, Loose c.chars

variable {before after : Gap} {path : List Step} {target : Target} {rename : Option Rename}
  {parts : List UseTree}

theorem loose_nothing (h : (nothing before).LooseComments) : Loose (nothing before).chars := by
  rw [chars]
  exact Gap.loose h

theorem loose_leaf (h : (leaf before path target rename after).LooseComments) :
    Loose (leaf before path target rename after).chars := by
  rw [LooseComments, comments] at h
  simp only [List.forall_mem_append] at h
  obtain ⟨hbefore, hpath, hrename, hafter⟩ := h
  rw [chars]
  refine (Gap.loose hbefore).append ((loose_pathChars hpath).append (target.loose.append ?_))
  refine Loose.append ?_ (Gap.loose hafter)
  cases rename with
  | none => simp [Loose]
  | some r => exact r.loose hrename

/-- The base, the parts and the end of a group. -/
theorem LooseComments.of_group (h : (group before path parts after).LooseComments) :
    Loose (before.chars ++ pathChars path) ∧ (∀ p ∈ parts, p.LooseComments) ∧
      Loose after.chars := by
  rw [LooseComments, comments, commentsOf_eq] at h
  simp only [List.forall_mem_append] at h
  obtain ⟨hbefore, hpath, hparts, hafter⟩ := h
  refine ⟨(Gap.loose hbefore).append (loose_pathChars hpath), fun p hp c hc => ?_,
    Gap.loose hafter⟩
  exact hparts c (List.mem_flatMap.mpr ⟨p, hp, hc⟩)

theorem narrow_group : narrow (group before path parts after).chars =
    narrow (before.chars ++ pathChars path) ++
      '\x7b' :: ([','].intercalate (parts.map fun p => narrow p.chars) ++
        '\x7d' :: narrow after.chars) := by
  rw [chars, ← List.append_assoc, Chars.narrow_append_cons (by decide),
    Chars.narrow_append_cons (by decide), Chars.narrow_intercalate (by decide), charsOf_eq,
    List.map_map]
  rfl

/-- **The scan passes over a tree,** however deep it stands. -/
theorem passes {t : UseTree} (h : t.LooseComments) {depth : Int} (hdepth : 0 ≤ depth) :
    Chars.Passes ',' false ⟨depth, none, false⟩ (narrow t.chars) := by
  induction t generalizing depth with
  | nothing gap => exact (loose_nothing h).narrow.passes depth
  | leaf before path target rename after => exact (loose_leaf h).narrow.passes depth
  | group before path parts after ih =>
    obtain ⟨hbase, hparts, hafter⟩ := h.of_group
    -- between the braces the scan is one level down, where commas do not count
    have hbelow : (⟨depth + 1, none, false⟩ : Nesting).isTop = false := by
      simp [Nesting.isTop]
      omega
    have hinner : Chars.Passes ',' false ⟨depth + 1, none, false⟩
        ([','].intercalate (parts.map fun p => narrow p.chars)) := by
      refine Chars.Passes.intercalate hbelow rfl fun cs hcs => ?_
      obtain ⟨p, hp, rfl⟩ := List.mem_map.mp hcs
      exact ih p hp (hparts p hp) (by omega)
    have hdown : Nesting.step false ⟨depth, none, false⟩ '\x7b' = ⟨depth + 1, none, false⟩ := rfl
    have hup : Nesting.step false ⟨depth + 1, none, false⟩ '\x7d' = ⟨depth, none, false⟩ := by
      show (⟨depth + 1 - 1, none, false⟩ : Nesting) = _
      rw [Int.add_sub_cancel]
    have hbraces := hinner.bracketed (by decide) (by decide) hdown hup
    have hall := (hbase.narrow.passes depth).append (hbraces.append (hafter.narrow.passes depth))
    rw [narrow_group]
    simpa using hall

/-- **A group is read** as its parts, if nothing but blanks follows it. -/
theorem expand_group (root : String) (h : (group before path parts after).LooseComments)
    (hafter : after.comments = []) :
    expand root (narrow (group before path parts after).chars) =
      parts.flatMap fun p =>
        expand (joinPath root (basePath (narrow (before.chars ++ pathChars path))))
          (narrow p.chars) := by
  obtain ⟨hbase, hparts, -⟩ := h.of_group
  rw [narrow_group, expand_braced, List.flatMap_map]
  · exact hbase.narrow.not_mem (by decide)
  · exact Chars.isBlank_of_mem_narrow (Gap.isBlank_of_mem hafter)
  · intro cs hcs
    obtain ⟨p, hp, rfl⟩ := List.mem_map.mp hcs
    exact passes (hparts p hp) (Int.le_refl 0)

end UseTree

/-! ## Clauses -/

theorem expand_collapse (root s : String) :
    expand root (Text.collapse s).toList = expand root (narrow s.toList) := by
  refine expand_congr root ?_
  rw [Text.toList_collapse, bare_trim]

theorem Identifier.startsSolid_append (i : Identifier) (cs : List Char) :
    StartsSolid (i.chars ++ cs) := by
  obtain ⟨c, rest, heq⟩ := List.exists_cons_of_ne_nil i.ne_nil
  rw [heq, List.cons_append]
  refine Chars.startsSolid_cons (not_isBlank_of_isNameChar (i.isNameChar_of_mem ?_)) _
  rw [heq]
  exact List.mem_cons_self

theorem startsSolid_pathChars_append {cs : List Char} (h : StartsSolid cs) (path : List Step) :
    StartsSolid (pathChars path ++ cs) := by
  cases path with
  | nil => exact h
  | cons s path =>
    rw [pathChars, List.flatMap_cons, Step.chars, List.append_assoc, List.append_assoc]
    exact s.name.startsSolid_append _

theorem Target.startsSolid_append (t : Target) (cs : List Char) : StartsSolid (t.chars ++ cs) := by
  cases t with
  | one name => exact name.startsSolid_append cs
  | all => exact Chars.startsSolid_cons (by decide) cs

theorem Gap.startsSolid_append {g : Gap} (hg : ∀ x ∈ g.trivia, x.comment?.isSome) {cs : List Char}
    (h : StartsSolid cs) : StartsSolid (g.chars ++ cs) := by
  obtain ⟨trivia⟩ := g
  cases trivia with
  | nil => exact h
  | cons x trivia =>
    cases x with
    | blank c hc => exact absurd (hg _ List.mem_cons_self) Bool.false_ne_true
    | comment c => cases c <;> exact Chars.startsSolid_cons (by decide) _

/-- With no blank before its first token, a tree does not begin with one. -/
theorem UseTree.startsSolid_chars {t : UseTree} (h : ∀ x ∈ t.leading.trivia, x.comment?.isSome) :
    StartsSolid t.chars := by
  cases t with
  | nothing gap =>
    rw [chars, ← List.append_nil gap.chars]
    exact Gap.startsSolid_append h Chars.startsSolid_nil
  | leaf before path target rename after =>
    rw [chars]
    exact Gap.startsSolid_append h (startsSolid_pathChars_append (target.startsSolid_append _) path)
  | group before path parts after =>
    rw [chars]
    refine Gap.startsSolid_append h (startsSolid_pathChars_append ?_ path)
    exact Chars.startsSolid_cons (by decide) _

/-- **A clause is read** as its tree with every run of blanks narrowed. -/
theorem UseClause.expand_text (root : String) (u : UseClause) :
    expand root (Text.collapse u.text).toList = expand root (narrow u.tree.chars) := by
  rw [expand_collapse, text, String.toList_ofList, chars]
  by_cases hrooted : u.rooted = true
  · rw [if_pos hrooted, Chars.narrow_solid_append not_isBlank_of_mem_colons]
    have hsolid := (UseTree.startsSolid_chars (u.tight hrooted)).narrow
    exact expand_congr root (bare_colons_append hsolid)
  · rw [if_neg hrooted, List.nil_append]

end CodeOutline.Rust
