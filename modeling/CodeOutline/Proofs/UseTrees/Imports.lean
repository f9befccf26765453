import CodeOutline.Proofs.UseTrees.Reading

/-!
# The imports of a use tree

**One import for each leaf (`use_imports_leaves`).** A `use` declaration without comments makes the
imports of its leaves, in source order, however it is laid out and however deep its groups are.

The proof is an induction over the tree. A group is read as its parts below a longer path
(`expand_group`), so all that is left is text without braces: the path of a group is its base
without the `::` at the end (`basePath_of_clean`), and a leaf is cut at ` as ` and at its last `::`
(`leafImport?_leafChars`).
-/

namespace CodeOutline.Rust

open Text (isBlank)
open Chars (narrow StartsSolid)

/-! ## Paths -/

/-- Names, each with the `::` after it. -/
def stem (names : List Identifier) : List Char := names.flatMap fun i => i.chars ++ colons

theorem stem_append (xs ys : List Identifier) : stem (xs ++ ys) = stem xs ++ stem ys :=
  List.flatMap_append

theorem toList_pathText (names : List Identifier) :
    (pathText names).toList = colons.intercalate (names.map Identifier.chars) := by
  rw [pathText, String.toList_intercalate, List.map_map]
  simp only [Identifier.name, Function.comp_def, String.toList_ofList]

theorem stem_eq {names : List Identifier} (hne : names ≠ []) :
    stem names = (pathText names).toList ++ colons := by
  rw [toList_pathText]
  induction names with
  | nil => exact absurd rfl hne
  | cons i names ih =>
    cases names with
    | nil => simp [stem]
    | cons j names =>
      have hrest := ih (List.cons_ne_nil j names)
      rw [stem, List.flatMap_cons, ← stem, hrest, List.map_cons, List.map_cons, List.map_cons,
        List.intercalate_cons_cons]
      simp only [List.append_assoc]

theorem toList_pathText_append (above : List Identifier) {names : List Identifier}
    (hne : names ≠ []) :
    (pathText (above ++ names)).toList = stem above ++ (pathText names).toList := by
  have hstem := stem_append above names
  rw [stem_eq hne, stem_eq (List.append_ne_nil_of_right_ne_nil above hne),
    ← List.append_assoc] at hstem
  exact List.append_cancel_right hstem

theorem toList_pathText_concat (above : List Identifier) (i : Identifier) :
    (pathText (above ++ [i])).toList = stem above ++ i.chars := by
  rw [toList_pathText_append above (List.cons_ne_nil i []), toList_pathText]
  simp

theorem pathText_eq_empty_iff {names : List Identifier} : pathText names = "" ↔ names = [] := by
  refine ⟨fun h => ?_, fun h => h ▸ rfl⟩
  by_contra hne
  obtain ⟨above, i, rfl⟩ := List.eq_nil_or_concat names |>.resolve_left hne
  have htext := toList_pathText_concat above i
  rw [← List.concat_eq_append, h] at htext
  exact i.ne_nil (List.append_eq_nil_iff.mp htext.symm).2

/-- What stands below a path is put behind its stem. -/
theorem toList_joinPath (above : List Identifier) {rest : String} (hrest : rest ≠ "") :
    (joinPath (pathText above) rest).toList = stem above ++ rest.toList := by
  by_cases habove : above = []
  · subst habove
    rfl
  · have hroot : pathText above ≠ "" := fun h => habove (pathText_eq_empty_iff.mp h)
    rw [joinPath, if_neg (by simpa using hroot), if_neg (by simpa using hrest), stem_eq habove]
    show (pathText above ++ "::" ++ rest).toList = _
    rw [String.toList_append, String.toList_append]

theorem joinPath_pathText (above names : List Identifier) :
    joinPath (pathText above) (pathText names) = pathText (above ++ names) := by
  by_cases hnames : names = []
  · subst hnames
    rw [List.append_nil, joinPath]
    by_cases habove : pathText above = ""
    · rw [if_pos (by simpa using habove), habove]
      rfl
    · rw [if_neg (by simpa using habove), if_pos (by rfl)]
  · have hrest : pathText names ≠ "" := fun h => hnames (pathText_eq_empty_iff.mp h)
    apply String.toList_injective
    rw [toList_joinPath above hrest, toList_pathText_append above hnames]

/-! ## Solid text -/

theorem not_isBlank_of_mem_stem (names : List Identifier) :
    ∀ c ∈ stem names, isBlank c = false := by
  intro c hc
  obtain ⟨i, -, hc⟩ := List.mem_flatMap.mp hc
  rcases List.mem_append.mp hc with hc | hc
  · exact not_isBlank_of_isNameChar (i.isNameChar_of_mem hc)
  · exact not_isBlank_of_mem_colons c hc

theorem Identifier.not_isBlank_of_mem {i : Identifier} : ∀ c ∈ i.chars, isBlank c = false :=
  fun _ hc => not_isBlank_of_isNameChar (i.isNameChar_of_mem hc)

theorem Target.not_isBlank_of_mem {t : Target} : ∀ c ∈ t.chars, isBlank c = false := by
  cases t with
  | one name => exact name.not_isBlank_of_mem
  | all =>
    intro c hc
    rw [List.mem_singleton.mp hc]
    decide

theorem ne_colon_of_isNameChar {c : Char} (h : isNameChar c = true) : c ≠ ':' := by
  rintro rfl
  exact absurd h (by decide)

theorem Identifier.colon_notMem (i : Identifier) : ':' ∉ i.chars :=
  fun h => ne_colon_of_isNameChar (i.isNameChar_of_mem h) rfl

theorem Target.colon_notMem (t : Target) : ':' ∉ t.chars := by
  cases t with
  | one name => exact name.colon_notMem
  | all => decide

theorem Target.ne_nil (t : Target) : t.chars ≠ [] := by
  cases t with
  | one name => exact name.ne_nil
  | all => decide

theorem not_starts_colons {cs : List Char} (h : ∀ c ∈ cs.head?, c ≠ ':') : ¬ colons <+: cs := by
  rintro ⟨rest, rfl⟩
  exact h ':' rfl rfl

theorem not_ends_colons {cs ds : List Char} (hne : ds ≠ []) (hds : ':' ∉ ds) :
    ¬ colons <:+ cs ++ ds := by
  rintro ⟨rest, heq⟩
  have hlast := congrArg List.getLast? heq
  rw [List.getLast?_append_of_ne_nil cs hne] at hlast
  refine hds (List.mem_of_getLast? (hlast.symm.trans ?_))
  exact List.getLast?_append_of_ne_nil rest colons_ne_nil

theorem head?_stem_append {p : Char → Prop} (hp : ∀ c, isNameChar c = true → p c)
    (names : List Identifier) {cs : List Char} (h : ∀ c ∈ cs.head?, p c) :
    ∀ c ∈ (stem names ++ cs).head?, p c := by
  cases names with
  | nil => exact h
  | cons i names =>
    intro c hc
    rw [stem, List.flatMap_cons, List.append_assoc, List.append_assoc,
      List.head?_append_of_ne_nil _ i.ne_nil] at hc
    exact hp c (i.isNameChar_of_mem (List.mem_of_head? hc))

/-! ## Without comments -/

theorem commentChars_nil : commentChars [] = [] := rfl

theorem pathChars_of_clean {path : List Step} (h : path.flatMap Step.comments = []) :
    pathChars path = stem (path.map Step.name) := by
  induction path with
  | nil => rfl
  | cons s path ih =>
    rw [List.flatMap_cons, List.append_eq_nil_iff, Step.comments, List.append_eq_nil_iff] at h
    obtain ⟨⟨hbefore, hafter⟩, hpath⟩ := h
    rw [pathChars, List.flatMap_cons, ← pathChars, ih hpath, Step.chars, hbefore, hafter,
      commentChars_nil, List.nil_append, List.append_nil, List.map_cons, stem, stem,
      List.flatMap_cons]

/-- **The path of a group** is what stands before its braces, without the last `::`. -/
theorem basePath_of_clean {before : Gap} {path : List Step} (hbefore : before.comments = [])
    (hpath : path.flatMap Step.comments = []) :
    basePath (narrow (before.chars ++ pathChars path)) = pathText (path.map Step.name) := by
  rw [pathChars_of_clean hpath]
  generalize path.map Step.name = names
  have hsolid := not_isBlank_of_mem_stem names
  have hstarts := Chars.startsSolid_of_solid hsolid
  have hfront : front (narrow (before.chars ++ stem names)) = stem names := by
    have hcolons : ¬ colons <+: stem names := by
      rw [← List.append_nil (stem names)]
      exact not_starts_colons (head?_stem_append (fun c => ne_colon_of_isNameChar) names (by simp))
    rw [hstarts.narrow_append, Chars.narrow_of_solid hsolid, front,
      List.dropWhile_append_of_pos (Chars.isBlank_of_mem_narrow (Gap.isBlank_of_mem hbefore)),
      hstarts.dropWhile_eq, Chars.dropAll_eq_self colons_ne_nil hcolons, hstarts.dropWhile_eq]
  apply String.toList_injective
  rw [toList_basePath, hfront, Chars.trim_of_solid hsolid]
  have hstrips := Chars.stripsTo_dropAllEnd colons_ne_nil (stem names)
  refine hstrips.unique ?_
  by_cases hnames : names = []
  · subst hnames
    exact ⟨⟨0, rfl⟩, by decide⟩
  · refine ⟨⟨1, by simpa using stem_eq hnames⟩, fun hsuffix => ?_⟩
    obtain ⟨above, i, rfl⟩ := List.eq_nil_or_concat names |>.resolve_left hnames
    rw [List.concat_eq_append, toList_pathText_concat] at hsuffix
    exact not_ends_colons i.ne_nil i.colon_notMem hsuffix

/-! ## Leaves -/

/-- A leaf on one line. -/
def leafChars (names : List Identifier) (target : Target) (asName : Option Identifier) :
    List Char :=
  stem names ++ (target.chars ++ (asName.map fun i => " as ".toList ++ i.chars).getD [])

/-- Where something has to stand, blanks come to one space. -/
theorem Gap.narrow_chars {g : Gap} (hne : g.trivia ≠ []) (h : g.comments = []) :
    narrow g.chars = [' '] := by
  refine Chars.narrow_of_blank (Gap.isBlank_of_mem h) fun hnil => ?_
  obtain ⟨x, rest, htrivia⟩ := List.exists_cons_of_ne_nil hne
  rw [Gap.chars, htrivia, List.flatMap_cons, List.append_eq_nil_iff] at hnil
  cases x with
  | blank c hc => exact List.cons_ne_nil c [] hnil.1
  | comment c => simp [Gap.comments, htrivia, Trivium.comment?] at h

theorem Rename.narrow_chars_append {r : Rename} (h : r.before.comments = []) (cs : List Char) :
    narrow (r.chars ++ cs) = " as".toList ++ narrow (r.after.chars ++ (r.name.chars ++ cs)) := by
  have htext : r.chars ++ cs =
      r.before.chars ++ 'a' :: 's' :: (r.after.chars ++ (r.name.chars ++ cs)) := by
    simp [Rename.chars]
  rw [htext, Chars.narrow_append_cons (by decide), Chars.narrow_cons (by decide),
    Gap.narrow_chars r.apart h]
  rfl

theorem Rename.narrow_chars_append_of_clean {r : Rename} (h : r.comments = []) (cs : List Char) :
    narrow (r.chars ++ cs) = " as ".toList ++ (r.name.chars ++ narrow cs) := by
  rw [comments, List.append_eq_nil_iff] at h
  rw [r.narrow_chars_append h.1, (r.name.startsSolid_append cs).narrow_append,
    Gap.narrow_chars r.apart' h.2, Chars.narrow_solid_append r.name.not_isBlank_of_mem]
  rfl

theorem narrow_leaf {before after : Gap} {path : List Step} {target : Target}
    {rename : Option Rename} (h : (UseTree.leaf before path target rename after).comments = []) :
    narrow (UseTree.leaf before path target rename after).chars =
      narrow before.chars ++
        (leafChars (path.map Step.name) target (rename.map Rename.name) ++ narrow after.chars) := by
  simp only [UseTree.comments, List.append_eq_nil_iff] at h
  obtain ⟨-, hpath, hrename, -⟩ := h
  have hstarts := startsSolid_pathChars_append (target.startsSolid_append
    ((rename.map Rename.chars).getD [] ++ after.chars)) path
  rw [UseTree.chars, hstarts.narrow_append, pathChars_of_clean hpath,
    Chars.narrow_solid_append (not_isBlank_of_mem_stem _),
    Chars.narrow_solid_append target.not_isBlank_of_mem, leafChars]
  cases rename with
  | none => simp
  | some r =>
    have hnew := r.narrow_chars_append_of_clean hrename after.chars
    simp only [Option.map_some, Option.getD_some, List.append_assoc, hnew]

theorem Target.head?_append (t : Target) (cs : List Char) :
    ∀ c ∈ (t.chars ++ cs).head?, isNameChar c = true ∨ c = '*' := by
  intro c hc
  cases t with
  | one name =>
    rw [Target.chars, List.head?_append_of_ne_nil _ name.ne_nil] at hc
    exact .inl (name.isNameChar_of_mem (List.mem_of_head? hc))
  | all => exact .inr (Option.some.inj hc).symm

/-- A leaf begins with a name or with `*`. -/
theorem head?_leafChars (names : List Identifier) (target : Target) (asName : Option Identifier) :
    ∀ c ∈ (leafChars names target asName).head?, isNameChar c = true ∨ c = '*' :=
  head?_stem_append (fun _ => .inl) names (target.head?_append _)

theorem trim_leafChars (names : List Identifier) (target : Target) (asName : Option Identifier) :
    Chars.trim (leafChars names target asName) = leafChars names target asName := by
  have hstarts : StartsSolid (leafChars names target asName) := by
    intro c hc
    rcases head?_leafChars names target asName c hc with hname | rfl
    · exact not_isBlank_of_isNameChar hname
    · decide
  cases asName with
  | none =>
    have htext : leafChars names target none = stem names ++ target.chars := by simp [leafChars]
    rw [htext] at hstarts ⊢
    exact Chars.trim_append_solid hstarts target.ne_nil target.not_isBlank_of_mem
  | some i =>
    have htext : leafChars names target (some i) =
        stem names ++ (target.chars ++ " as ".toList) ++ i.chars := by
      simp [leafChars]
    rw [htext] at hstarts ⊢
    exact Chars.trim_append_solid hstarts i.ne_nil i.not_isBlank_of_mem

theorem bare_leaf {before after : Gap} {path : List Step} {target : Target}
    {rename : Option Rename} (h : (UseTree.leaf before path target rename after).comments = []) :
    bare (narrow (UseTree.leaf before path target rename after).chars) =
      leafChars (path.map Step.name) target (rename.map Rename.name) := by
  have htrim : Chars.trim (narrow (UseTree.leaf before path target rename after).chars) =
      leafChars (path.map Step.name) target (rename.map Rename.name) := by
    rw [narrow_leaf h]
    simp only [UseTree.comments, List.append_eq_nil_iff] at h
    rw [Chars.trim_blank_append (Chars.isBlank_of_mem_narrow (Gap.isBlank_of_mem h.1)),
      Chars.trim_append_blank (Chars.isBlank_of_mem_narrow (Gap.isBlank_of_mem h.2.2.2)),
      trim_leafChars]
  have hcolons : ¬ colons <+: leafChars (path.map Step.name) target (rename.map Rename.name) := by
    refine not_starts_colons fun c hc => ?_
    rcases head?_leafChars _ _ _ c hc with hname | rfl
    · exact ne_colon_of_isNameChar hname
    · decide
  rw [bare_eq_trim (htrim ▸ hcolons), htrim]

/-- The new name of a leaf is found behind the first ` as `. -/
theorem renamed_leafChars (names : List Identifier) (target : Target)
    (asName : Option Identifier) :
    renamed (String.ofList (leafChars names target asName)) =
      (String.ofList (stem names ++ target.chars), asName.map Identifier.name) := by
  have hsolid : ∀ c ∈ stem names ++ target.chars, isBlank c = false := by
    intro c hc
    exact (List.mem_append.mp hc).elim (not_isBlank_of_mem_stem names c)
      (target.not_isBlank_of_mem c)
  have hspace : ' ' ∉ stem names ++ target.chars := fun h => absurd (hsolid ' ' h) (by decide)
  cases asName with
  | none =>
    have htext : leafChars names target none = stem names ++ target.chars := by simp [leafChars]
    have hcut : Chars.cut? " as ".toList (stem names ++ target.chars) = none :=
      Chars.cut?_eq_none hspace
    rw [htext, renamed_of_cut?_eq_none hcut]
    rfl
  | some i =>
    have htext : leafChars names target (some i) =
        stem names ++ target.chars ++ (" as ".toList ++ i.chars) := by
      simp [leafChars]
    have hcut : Chars.cut? " as ".toList
        (stem names ++ target.chars ++ (" as ".toList ++ i.chars)) =
          some (stem names ++ target.chars, i.chars) :=
      Chars.cut?_append hspace i.chars
    rw [htext, renamed_of_cut? hcut, Chars.trim_of_solid hsolid,
      Chars.trim_of_solid i.not_isBlank_of_mem]
    rfl

/-! ## The last name of a path -/

theorem cutLast?_colons_eq_none {cs : List Char} (h : ':' ∉ cs) :
    Chars.cutLast? colons cs = none := by
  induction cs with
  | nil => rfl
  | cons c cs ih =>
    have hafter : Chars.after? colons (c :: cs) = none := by
      refine Chars.after?_eq_none_iff.mpr (not_starts_colons ?_)
      rintro d hd rfl
      exact h (List.mem_of_head? hd)
    rw [Chars.cutLast?, ih fun hmem => h (List.mem_cons_of_mem c hmem), hafter]
    rfl

theorem cutLast?_colons_append (before : List Char) {after : List Char} (h : ':' ∉ after) :
    Chars.cutLast? colons (before ++ (colons ++ after)) = some (before, after) := by
  induction before with
  | nil =>
    -- the second colon begins no separator
    have hsecond : Chars.cutLast? colons (':' :: after) = none := by
      have hafter : Chars.after? colons (':' :: after) = none := by
        refine Chars.after?_eq_none_iff.mpr fun hpre => ?_
        exact h ((List.cons_prefix_cons.mp hpre).2.subset List.mem_cons_self)
      rw [Chars.cutLast?, cutLast?_colons_eq_none h, hafter]
      rfl
    have hfirst : Chars.after? colons (':' :: ':' :: after) = some after :=
      Chars.after?_eq_some_iff.mpr rfl
    show Chars.cutLast? colons (':' :: ':' :: after) = _
    rw [Chars.cutLast?, hsecond, hfirst]
    rfl
  | cons c before ih => rw [List.cons_append, Chars.cutLast?, ih]

/-- Only `self` itself is written as that. -/
theorem stem_append_eq_self_iff (names : List Identifier) (target : Target) :
    String.ofList (stem names ++ target.chars) = "self" ↔ names = [] ∧ target.name = "self" := by
  refine ⟨fun h => ?_, fun ⟨hnames, htarget⟩ => ?_⟩
  · have hnames : names = [] := by
      by_contra hne
      have hcolon : ':' ∈ stem names ++ target.chars := by
        rw [stem_eq hne]
        exact List.mem_append_left _ (List.mem_append_right _ (by decide))
      have htext := congrArg String.toList h
      rw [String.toList_ofList] at htext
      rw [htext] at hcolon
      exact absurd hcolon (by decide)
    subst hnames
    exact ⟨rfl, h⟩
  · subst hnames
    exact htarget

/-- A path is cut before its last name. -/
theorem pathImport_stem (names : List Identifier) (target : Target) (asName : Option String) :
    pathImport (String.ofList (stem names ++ target.chars)) asName =
      if names = [] then .whole target.name asName
      else .member (pathText names) target.name asName := by
  by_cases hnames : names = []
  · have hcut : Text.cutLast? "::" target.name = none := by
      rw [Text.cutLast?, Target.name, String.toList_ofList (l := target.chars)]
      exact congrArg (Option.map _) (cutLast?_colons_eq_none target.colon_notMem)
    subst hnames
    show pathImport target.name asName = _
    rw [pathImport, hcut]
    rfl
  · have hcut : Text.cutLast? "::" (String.ofList (stem names ++ target.chars)) =
        some (pathText names, target.name) := by
      rw [Text.cutLast?, String.toList_ofList (l := stem names ++ target.chars), stem_eq hnames,
        List.append_assoc]
      have hlast := cutLast?_colons_append (pathText names).toList target.colon_notMem
      rw [hlast]
      simp [Target.name]
    rw [pathImport, hcut, if_neg hnames]

/-- **A leaf is read** as the import it makes. -/
theorem leafImport?_leafChars (above names : List Identifier) (target : Target)
    (asName : Option Identifier) :
    leafImport? (pathText above) (String.ofList (leafChars names target asName)) =
      UseLeaf.import? ⟨above, names, target, asName⟩ := by
  have hroot : ((pathText above).isEmpty = true) ↔ above = [] := by
    rw [← pathText_eq_empty_iff]
    simp
  rw [leafImport?_eq, renamed_leafChars, UseLeaf.import?]
  by_cases hself : names = [] ∧ target.name = "self"
  · rw [if_pos ((stem_append_eq_self_iff names target).mpr hself), if_pos hself]
    simp only [hroot]
  · rw [if_neg fun h => hself ((stem_append_eq_self_iff names target).mp h), if_neg hself]
    have hne : String.ofList (stem names ++ target.chars) ≠ "" := by
      intro hempty
      have htext := congrArg String.toList hempty
      rw [String.toList_ofList] at htext
      exact target.ne_nil (List.append_eq_nil_iff.mp htext).2
    have hfull : joinPath (pathText above) (String.ofList (stem names ++ target.chars)) =
        String.ofList (stem (above ++ names) ++ target.chars) := by
      apply String.toList_injective
      rw [toList_joinPath above hne, stem_append, String.toList_ofList, String.toList_ofList,
        List.append_assoc]
    rw [hfull, pathImport_stem, apply_ite some]

/-! ## Trees -/

namespace UseTree

theorem unclosed_leaf {before after : Gap} {path : List Step} {target : Target}
    {rename : Option Rename} (h : (leaf before path target rename after).LooseComments) :
    '\x7d' ∉ (bare (narrow (leaf before path target rename after).chars)).getLast? := by
  intro hlast
  have hmem := mem_of_mem_bare (List.mem_of_getLast? hlast)
  exact (loose_leaf h).narrow.not_mem (by decide) hmem

/-- Without comments around its braces, a group is read as its parts below its path. -/
theorem expand_group_of_clean {before after : Gap} {path : List Step} {parts : List UseTree}
    (h : (group before path parts after).LooseComments) (hbefore : before.comments = [])
    (hpath : path.flatMap Step.comments = []) (hafter : after.comments = [])
    (above : List Identifier) :
    expand (pathText above) (narrow (group before path parts after).chars) =
      parts.flatMap fun p =>
        expand (pathText (above ++ path.map Step.name)) (narrow p.chars) := by
  rw [expand_group _ h hafter, basePath_of_clean hbefore hpath, joinPath_pathText]

end UseTree

/-- **A tree without comments is read** as the imports of its leaves. -/
theorem expand_tree {t : UseTree} (h : t.comments = []) (above : List Identifier) :
    expand (pathText above) (narrow t.chars) = (t.leaves above).filterMap UseLeaf.import? := by
  have hloose : ∀ {t : UseTree}, t.comments = [] → t.LooseComments := by
    intro t ht c hc
    simp [ht] at hc
  induction t generalizing above with
  | nothing gap =>
    rw [UseTree.comments] at h
    rw [UseTree.chars]
    exact expand_of_blank _ (Chars.isBlank_of_mem_narrow (Gap.isBlank_of_mem h))
  | leaf before path target rename after =>
    have hbare := bare_leaf h
    have hne : bare (narrow (UseTree.leaf before path target rename after).chars) ≠ [] := by
      rw [hbare, leafChars]
      simp [target.ne_nil]
    rw [expand_of_unclosed _ hne (UseTree.unclosed_leaf (hloose h)), hbare, leafImport?_leafChars,
      UseTree.leaves]
    generalize UseLeaf.mk above (path.map Step.name) target (rename.map Rename.name) = l
    rw [List.filterMap_cons]
    cases l.import? <;> rfl
  | group before path parts after ih =>
    have hclean := h
    simp only [UseTree.comments, UseTree.commentsOf_eq, List.append_eq_nil_iff] at hclean
    obtain ⟨hbefore, hpath, hparts, hafter⟩ := hclean
    rw [UseTree.expand_group_of_clean (hloose h) hbefore hpath hafter, UseTree.leaves,
      UseTree.leavesOf_eq, List.filterMap_flatMap]
    exact List.flatMap_congr fun p hp => ih p hp (List.flatMap_eq_nil_iff.mp hparts p hp) _

/-- **One import for each leaf.** A `use` declaration without comments makes the imports of its
leaves, in source order.

Whatever the text, a group is cut at two places of it, and every part is shorter than the text, so
that reading ends. -/
theorem use_imports_leaves :
    (∀ (u : UseClause) (src : String) (t : Tree), u.comments = [] →
      t.fieldText? src "argument" = some u.text →
        useItems src t = u.imports.map Item.imports) ∧
    ∀ text base inner, group? (bare text) = some (base, inner) →
      bare text = base ++ '\x7b' :: (inner ++ ['\x7d']) ∧
        ∀ part ∈ Chars.splitTop ',' false inner, part.length < text.length := by
  refine ⟨fun u src t hclean htext => ?_, fun text base inner hgroup => ?_⟩
  · have hexpand : expand "" (Text.collapse u.text).toList = u.imports := by
      rw [u.expand_text]
      exact expand_tree hclean []
    rw [useItems, htext, ← hexpand]
  · refine ⟨eq_of_group? hgroup, fun part hpart => ?_⟩
    calc part.length
      _ ≤ inner.length := Chars.length_of_mem_splitTopFrom hpart
      _ < (bare text).length := length_of_group? hgroup
      _ ≤ text.length := length_bare_le text

/-- The node of a `use` declaration whose clause ends at `stop`. -/
def useNode (stop : Nat) : Tree :=
  .node ⟨"use_declaration", true, false, false, none, 0, stop + 1⟩
    [.node ⟨"use", false, false, false, none, 0, 3⟩ [],
      .node ⟨"use_list", true, false, false, some "argument", 4, stop⟩ [],
      .node ⟨";", false, false, false, none, stop, stop + 1⟩ []]

/-- A tree with groups in groups, with and without a path, with `self` in both, and with a name that
is given on another line. -/
def nestedUse : UseClause where
  rooted := true
  tree :=
    .group {} []
      [.leaf {} [] (.one (.ofText "self")) none {},
        .group ⟨[.space]⟩ [⟨.ofText "a", [], []⟩]
          [.leaf ⟨[.space]⟩ [] (.one (.ofText "self"))
              (some (.spaced .space [] .space [] (.ofText "x"))) ⟨[.space]⟩,
            .group ⟨[.space]⟩ [⟨.ofText "b", [], []⟩]
              [.leaf {} [] .all none {},
                .leaf ⟨[.space]⟩ [] (.one (.ofText "c"))
                  (some (.spaced (.blank '\n' rfl) [.space] .space [] (.ofText "d"))) {}] {},
            .nothing ⟨[.space]⟩] {}] {}
  tight := by simp [UseTree.leading]

theorem imports_nestedUse :
    let src := "use ::\x7bself, a::\x7b self as x , b::\x7b*, c\n as d\x7d, \x7d\x7d;"
    nestedUse.comments = [] ∧ (useNode 49).fieldText? src "argument" = some nestedUse.text ∧
      useItems src (useNode 49) = [Item.imports (.whole "a" (some "x")),
        Item.imports (.member "a::b" "*" none), Item.imports (.member "a::b" "c" (some "d"))] := by
  intro src
  have htext : (useNode 49).fieldText? src "argument" = some nestedUse.text := by decide +kernel
  have himports : nestedUse.imports =
      [.whole "a" (some "x"), .member "a::b" "*" none, .member "a::b" "c" (some "d")] := by
    decide +kernel
  refine ⟨rfl, htext, ?_⟩
  rw [use_imports_leaves.1 nestedUse src (useNode 49) rfl htext, himports]
  rfl

end CodeOutline.Rust
