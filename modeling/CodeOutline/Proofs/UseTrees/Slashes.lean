import CodeOutline.Proofs.UseTrees.Imports

/-!
# Slashes in use trees

A slash stands in no name, but every comment begins with one. Reading a use tree drops blanks,
commas, braces and some `::`, and never a slash:

* a slash in the path to a tree is in every import that is read from it (`mentions_of_expand`), and
* a slash in a leaf is in its import (`mentions_of_leafImport?`), if there is one.

There is none only where the leaf is read as `self` and nothing is above it. A text with a slash is
read as that only if it begins with `self` and an `as` between blanks (`ReadsSelf.exists_eq`).
-/

namespace CodeOutline

/-- Everything that an import writes out. -/
def Import.texts (i : Import) : List String := i.path :: (i.names ++ i.asName.toList)

def Import.Mentions (c : Char) (i : Import) : Prop := ∃ s ∈ i.texts, c ∈ s.toList

namespace Chars

/-- A text is cut in one way only into a run of some characters and a rest that begins with
another. -/
theorem run_unique {p : Char → Bool} {xs ys cs ds : List Char} (hx : ∀ c ∈ xs, p c = true)
    (hy : ∀ c ∈ ys, p c = true) (hc : ∀ c ∈ cs.head?, p c = false)
    (hd : ∀ c ∈ ds.head?, p c = false) (h : xs ++ cs = ys ++ ds) : xs = ys ∧ cs = ds := by
  have hrun : ∀ {zs es : List Char}, (∀ c ∈ zs, p c = true) → (∀ c ∈ es.head?, p c = false) →
      (zs ++ es).takeWhile p = zs := by
    intro zs es hz he
    rw [List.takeWhile_append_of_pos hz]
    cases es with
    | nil => exact List.append_nil zs
    | cons e es => rw [List.takeWhile_cons_of_neg (by simp [he e rfl]), List.append_nil]
  have hxs : xs = ys := by
    rw [← hrun hx hc, h, hrun hy hd]
  subst hxs
  exact ⟨rfl, List.append_cancel_left h⟩

end Chars

namespace Rust

open Text (isBlank)
open Chars (narrow StartsSolid)

/-! ## What is kept -/

theorem mem_joinPath {c : Char} {root rest : String} (h : c ∈ root.toList ∨ c ∈ rest.toList) :
    c ∈ (joinPath root rest).toList := by
  rw [joinPath]
  by_cases hroot : root = ""
  · rw [if_pos (by simpa using hroot)]
    rcases h with h | h
    · simp [hroot] at h
    · exact h
  · rw [if_neg (by simpa using hroot)]
    by_cases hrest : rest = ""
    · rw [if_pos (by simpa using hrest)]
      rcases h with h | h
      · exact h
      · simp [hrest] at h
    · rw [if_neg (by simpa using hrest)]
      show c ∈ (root ++ "::" ++ rest).toList
      rw [String.toList_append, String.toList_append]
      rcases h with h | h
      · exact List.mem_append_left _ (List.mem_append_left _ h)
      · exact List.mem_append_right _ h

theorem joinPath_ne_empty {root : String} (hroot : root ≠ "") (rest : String) :
    joinPath root rest ≠ "" := by
  obtain ⟨c, cs, hcs⟩ := List.exists_cons_of_ne_nil (String.toList_eq_nil_iff.not.mpr hroot)
  have hmem : c ∈ (joinPath root rest).toList := mem_joinPath (.inl (hcs ▸ List.mem_cons_self))
  intro hempty
  simp [hempty] at hmem

theorem mem_front {cs : List Char} {c : Char} (hblank : isBlank c = false) (hc : c ∉ colons)
    (h : c ∈ cs) : c ∈ front cs :=
  Chars.mem_dropWhile (Chars.mem_dropAll colons_ne_nil hc (Chars.mem_dropWhile h hblank)) hblank

theorem slash_mem_basePath {base : List Char} (h : '/' ∈ base) :
    '/' ∈ (basePath base).toList := by
  rw [toList_basePath]
  refine Chars.mem_dropAllEnd colons_ne_nil (by decide) (Chars.mem_trim ?_ (by decide))
  exact mem_front (by decide) (by decide) h

/-- A slash in a leaf stands in its path or in its new name. -/
theorem slash_mem_renamed {leaf : List Char} (h : '/' ∈ leaf) :
    '/' ∈ (renamed (String.ofList leaf)).1.toList ∨
      ∃ name ∈ (renamed (String.ofList leaf)).2, '/' ∈ name.toList := by
  cases hcut : Chars.cut? " as ".toList leaf with
  | none =>
    rw [renamed_of_cut?_eq_none hcut, String.toList_ofList]
    exact .inl h
  | some cut =>
    obtain ⟨path, name⟩ := cut
    rw [renamed_of_cut? hcut, String.toList_ofList]
    rw [Chars.eq_append_of_cut? hcut, List.mem_append, List.mem_append] at h
    rcases h with (h | h) | h
    · exact .inl (Chars.mem_trim h (by decide))
    · exact absurd h (by decide)
    · refine .inr ⟨_, rfl, ?_⟩
      rw [String.toList_ofList]
      exact Chars.mem_trim h (by decide)

theorem mentions_pathImport {full : String} (h : '/' ∈ full.toList) (asName : Option String) :
    (pathImport full asName).Mentions '/' := by
  cases hcut : Chars.cutLast? colons full.toList with
  | none =>
    have htext : Text.cutLast? "::" full = none := congrArg (Option.map _) hcut
    rw [pathImport, htext]
    exact ⟨full, List.mem_cons_self, h⟩
  | some cut =>
    have htext : Text.cutLast? "::" full = some (String.ofList cut.1, String.ofList cut.2) :=
      congrArg (Option.map _) hcut
    rw [pathImport, htext]
    rw [Chars.eq_append_of_cutLast? hcut, List.mem_append, List.mem_append] at h
    rcases h with (h | h) | h
    · exact ⟨String.ofList cut.1, List.mem_cons_self, by rwa [String.toList_ofList]⟩
    · exact absurd h (by decide)
    · exact ⟨String.ofList cut.2, by simp [Import.texts, Import.member],
        by rwa [String.toList_ofList]⟩

theorem mentions_of_asName {i : Import} {name : String} (hname : name ∈ i.asName)
    (h : '/' ∈ name.toList) : i.Mentions '/' :=
  ⟨name, List.mem_cons_of_mem _ (List.mem_append_right _ (Option.mem_toList.mpr hname)), h⟩

/-- A slash in the path to a leaf or in its text is in its import. -/
theorem mentions_of_leafImport? {root : String} {leaf : List Char} {i : Import}
    (h : '/' ∈ root.toList ∨ '/' ∈ leaf) (hi : leafImport? root (String.ofList leaf) = some i) :
    i.Mentions '/' := by
  have hparts := h.imp_right slash_mem_renamed
  rw [leafImport?_eq] at hi
  by_cases hself : (renamed (String.ofList leaf)).1 = "self"
  · rw [if_pos hself] at hi
    by_cases hroot : root.isEmpty = true
    · simp [hroot] at hi
    · rw [if_neg hroot] at hi
      obtain rfl := Option.some.inj hi
      rcases hparts with hslash | hslash | ⟨name, hname, hslash⟩
      · exact ⟨root, List.mem_cons_self, hslash⟩
      · rw [hself] at hslash
        exact absurd hslash (by decide)
      · exact mentions_of_asName hname hslash
  · rw [if_neg hself] at hi
    obtain rfl := Option.some.inj hi
    rcases hparts with hslash | hslash | ⟨name, hname, hslash⟩
    · exact mentions_pathImport (mem_joinPath (.inl hslash)) _
    · exact mentions_pathImport (mem_joinPath (.inr hslash)) _
    · exact mentions_of_asName (by rwa [asName_pathImport]) hslash

/-- **A slash in the path** to a tree is in all its imports. -/
theorem mentions_of_expand {root : String} (h : '/' ∈ root.toList) {text : List Char} {i : Import}
    (hi : i ∈ expand root text) : i.Mentions '/' := by
  induction hsize : text.length using Nat.strong_induction_on generalizing root text with
  | _ size ih =>
    rw [expand_eq] at hi
    split at hi
    · cases hi
    · split at hi
      · next base inner hgroup =>
        obtain ⟨part, hpart, hi⟩ := List.mem_flatMap.mp hi
        refine ih part.length ?_ (mem_joinPath (.inl h)) hi rfl
        calc part.length
          _ ≤ inner.length := Chars.length_of_mem_splitTopFrom hpart
          _ < (bare text).length := length_of_group? hgroup
          _ ≤ text.length := length_bare_le text
          _ = size := hsize
      · exact mentions_of_leafImport? (.inl h) (Option.mem_toList.mp hi)

/-- What a leaf imports has no slash in it. -/
theorem UseLeaf.not_mentions {l : UseLeaf} {i : Import} (h : l.import? = some i) :
    ¬ i.Mentions '/' := by
  have hchars : ∀ j : Identifier, '/' ∉ j.chars := by
    intro j hj
    exact absurd (j.isNameChar_of_mem hj) (by decide)
  have hname : ∀ s ∈ (l.asName.map Identifier.name).toList, '/' ∉ s.toList := by
    intro s hs hslash
    obtain ⟨j, -, rfl⟩ := Option.map_eq_some_iff.mp (Option.mem_toList.mp hs)
    rw [Identifier.name, String.toList_ofList] at hslash
    exact hchars j hslash
  have htarget : '/' ∉ l.target.name.toList := by
    rw [Target.name, String.toList_ofList]
    cases l.target with
    | one j => exact hchars j
    | all => decide
  have hpath : ∀ names, '/' ∉ (pathText names).toList := by
    intro names hslash
    have hstem : '/' ∈ stem names := by
      by_cases hnames : names = []
      · subst hnames
        exact absurd hslash (by decide)
      · rw [stem_eq hnames]
        exact List.mem_append_left _ hslash
    obtain ⟨j, -, hj⟩ := List.mem_flatMap.mp hstem
    rcases List.mem_append.mp hj with hj | hj
    · exact hchars j hj
    · exact absurd hj (by decide)
  rintro ⟨s, hs, hslash⟩
  rw [UseLeaf.import?] at h
  split_ifs at h
  all_goals
    obtain rfl := Option.some.inj h
    simp only [Import.texts, Import.whole, Import.member, List.nil_append, List.mem_cons,
      List.cons_append] at hs
  · rcases hs with rfl | hs
    · exact hpath _ hslash
    · exact hname s hs hslash
  · rcases hs with rfl | hs
    · exact htarget hslash
    · exact hname s hs hslash
  · rcases hs with rfl | rfl | hs
    · exact hpath _ hslash
    · exact htarget hslash
    · exact hname s hs hslash

/-! ## What is not -/

/-- The text is a leaf that names `self`. -/
def ReadsSelf (cs : List Char) : Prop := (renamed (String.ofList (bare cs))).1 = "self"

theorem UseLeaf.import?_eq_none_iff {l : UseLeaf} :
    l.import? = none ↔ l.above = [] ∧ l.path = [] ∧ l.target.name = "self" := by
  rw [UseLeaf.import?]
  by_cases hself : l.path = [] ∧ l.target.name = "self"
  · by_cases habove : l.above = [] <;> simp [hself, habove]
  · rw [if_neg hself]
    split <;> simp [hself]

theorem leafImport?_eq_none_iff {root : String} {cs : List Char} :
    leafImport? root (String.ofList (bare cs)) = none ↔ ReadsSelf cs ∧ root = "" := by
  rw [leafImport?_eq, ReadsSelf]
  by_cases hself : (renamed (String.ofList (bare cs))).1 = "self"
  · by_cases hroot : root = "" <;> simp [hself, hroot]
  · simp [hself]

theorem ReadsSelf.expand_eq_nil {cs : List Char} (h : ReadsSelf cs)
    (hlast : '\x7d' ∉ (bare cs).getLast?) : expand "" cs = [] := by
  rw [expand_eq, group?_eq_none hlast]
  split
  · rfl
  · show (leafImport? "" (String.ofList (bare cs))).toList = []
    rw [leafImport?_eq_none_iff.mpr ⟨h, rfl⟩]
    rfl

/-- A text without a brace at its end is a leaf, and a slash in it is in its import. -/
theorem exists_mentions_of_unclosed {root : String} {cs : List Char} (hslash : '/' ∈ cs)
    (hlast : '\x7d' ∉ (bare cs).getLast?) (hself : ReadsSelf cs → root ≠ "") :
    ∃ i ∈ expand root cs, i.Mentions '/' := by
  have hmem : '/' ∈ bare cs := mem_bare (by decide) (by decide) hslash
  rw [expand_of_unclosed root (List.ne_nil_of_mem hmem) hlast]
  cases hleaf : leafImport? root (String.ofList (bare cs)) with
  | none =>
    obtain ⟨hreads, hroot⟩ := leafImport?_eq_none_iff.mp hleaf
    exact absurd hroot (hself hreads)
  | some i => exact ⟨i, by simp, mentions_of_leafImport? (.inr hmem) hleaf⟩

/-- Behind the last brace, a slash keeps a text from being read as a group. -/
theorem unclosed_append {cs ds : List Char} (hslash : '/' ∈ ds) (hbrace : '\x7d' ∉ ds) :
    '\x7d' ∉ (bare (cs ++ ds)).getLast? := by
  obtain ⟨before, after, rfl⟩ := List.append_of_mem hslash
  intro hlast
  rw [← List.append_assoc, bare_append_cons (by decide) (by decide),
    List.getLast?_append_of_ne_nil _ (List.cons_ne_nil _ _)] at hlast
  rcases List.mem_cons.mp (List.mem_of_getLast? hlast) with hlast | hlast
  · exact absurd hlast (by decide)
  · refine hbrace (List.mem_append_right _ (List.mem_cons_of_mem _ ?_))
    exact (Chars.prefix_dropEndWhile _ _).subset hlast

/-- The text begins with `as`, between blanks. -/
def StartsAs (cs : List Char) : Prop :=
  ∃ ws rest, (∀ c ∈ ws, isBlank c = true) ∧ cs = ws ++ (" as ".toList ++ rest)

theorem StartsAs.isBlank_head? {cs : List Char} (h : StartsAs cs) :
    ∀ c ∈ cs.head?, isBlank c = true := by
  obtain ⟨ws, rest, hws, rfl⟩ := h
  intro c hc
  cases ws with
  | nil =>
    obtain rfl : ' ' = c := Option.some.inj hc
    decide
  | cons w ws =>
    obtain rfl : w = c := Option.some.inj hc
    exact hws w List.mem_cons_self

/-- Behind the blanks, `as` is the first that is found. -/
theorem StartsAs.exists_eq {bs cs : List Char} (hbs : ∀ c ∈ bs, isBlank c = true)
    (hcs : StartsSolid cs) (h : StartsAs (bs ++ cs)) : ∃ rest, cs = 'a' :: 's' :: ' ' :: rest := by
  obtain ⟨ws, rest, hws, heq⟩ := h
  have hregroup : ws ++ (" as ".toList ++ rest) = (ws ++ [' ']) ++ ('a' :: 's' :: ' ' :: rest) := by
    simp
  have hblanks : ∀ c ∈ ws ++ [' '], isBlank c = true := by
    intro c hc
    rcases List.mem_append.mp hc with hc | hc
    · exact hws c hc
    · rw [List.mem_singleton.mp hc]
      decide
  rw [hregroup] at heq
  exact ⟨rest, (Chars.run_unique hbs hblanks hcs (Chars.startsSolid_cons (by decide) _) heq).2⟩

/-- **A text with a slash is read as `self`** only if it begins with that and `as`. -/
theorem ReadsSelf.exists_eq {bs cs : List Char} (hbs : ∀ c ∈ bs, isBlank c = true)
    (hstarts : StartsSolid cs) (hcolon : ∀ c ∈ cs.head?, c ≠ ':') (hslash : '/' ∈ cs)
    (h : ReadsSelf (bs ++ cs)) : ∃ tail, cs = "self".toList ++ tail ∧ StartsAs tail := by
  have htrim : Chars.trim (bs ++ cs) = Chars.dropEndWhile isBlank cs := by
    rw [Chars.trim_blank_append hbs, Chars.trim, hstarts.dropWhile_eq]
  obtain ⟨after, hafter⟩ := Chars.prefix_dropEndWhile isBlank cs
  have hbare : bare (bs ++ cs) = Chars.dropEndWhile isBlank cs := by
    rw [bare_eq_trim, htrim]
    rw [htrim]
    exact fun hpre => not_starts_colons hcolon (hpre.trans ⟨after, hafter⟩)
  have hkept : '/' ∈ Chars.dropEndWhile isBlank cs := Chars.mem_dropEndWhile hslash (by decide)
  rw [ReadsSelf, hbare] at h
  cases hcut : Chars.cut? " as ".toList (Chars.dropEndWhile isBlank cs) with
  | none =>
    rw [renamed_of_cut?_eq_none hcut] at h
    have hself := congrArg String.toList h
    rw [String.toList_ofList] at hself
    rw [hself] at hkept
    exact absurd hkept (by decide)
  | some cut =>
    obtain ⟨path, name⟩ := cut
    rw [renamed_of_cut? hcut] at h
    have hpath := congrArg String.toList h
    rw [String.toList_ofList] at hpath
    obtain ⟨front, ws, hfront, hws, heq⟩ := Chars.exists_trim path
    rw [Chars.eq_append_of_cut? hcut, heq, hpath] at hafter
    have hnil : front = [] := by
      cases front with
      | nil => rfl
      | cons c front =>
        have hblank := hfront c List.mem_cons_self
        rw [← hafter] at hstarts
        rw [hstarts c rfl] at hblank
        cases hblank
    subst hnil
    refine ⟨ws ++ (" as ".toList ++ (name ++ after)), ?_, ws, name ++ after, hws, rfl⟩
    rw [← hafter]
    simp only [List.nil_append, List.append_assoc]

/-- A text that begins with `self as` is read as `self`, if something follows. -/
theorem readsSelf_of_eq {bs cs : List Char} {c : Char} (hbs : ∀ c ∈ bs, isBlank c = true)
    (hc : isBlank c = false) (hmem : c ∈ cs) :
    ReadsSelf (bs ++ ("self".toList ++ (" as ".toList ++ cs))) := by
  obtain ⟨front, back, rfl⟩ := List.append_of_mem hmem
  have hregroup : "self".toList ++ (" as ".toList ++ (front ++ c :: back)) =
      ("self as ".toList ++ front) ++ c :: back := by
    simp
  have htrim : Chars.trim (bs ++ ("self".toList ++ (" as ".toList ++ (front ++ c :: back)))) =
      "self".toList ++ (" as ".toList ++ (front ++ c :: Chars.dropEndWhile isBlank back)) := by
    have hstarts : StartsSolid ("self as ".toList ++ front) := Chars.startsSolid_cons (by decide) _
    rw [Chars.trim_blank_append hbs, hregroup, Chars.trim_append_cons hc, hstarts.dropWhile_eq]
    simp
  have hbare : bare (bs ++ ("self".toList ++ (" as ".toList ++ (front ++ c :: back)))) =
      "self".toList ++ (" as ".toList ++ (front ++ c :: Chars.dropEndWhile isBlank back)) := by
    rw [bare_eq_trim, htrim]
    rw [htrim]
    exact not_starts_colons (by simp)
  have hcut : Chars.cut? " as ".toList
      ("self".toList ++ (" as ".toList ++ (front ++ c :: Chars.dropEndWhile isBlank back))) =
        some ("self".toList, front ++ c :: Chars.dropEndWhile isBlank back) :=
    Chars.cut?_append (by decide) _
  rw [ReadsSelf, hbare, renamed_of_cut? hcut]
  rfl

end Rust

end CodeOutline
