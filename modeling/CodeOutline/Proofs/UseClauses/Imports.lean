import CodeOutline.Proofs.Lines
import CodeOutline.Proofs.Reaching
import CodeOutline.Proofs.UseClauses.Clauses

/-!
# The imports of use declarations

**One import for each clause (`use_imports_clauses_iff`).** A `use` declaration makes the imports of
its clauses, in order, exactly if it is legible: each word for a kind has a space behind it, and no
clause looks as if it began with such a word.

Commas cut a list or a group into its clauses, so all that is left is what stands before them. A
word for a kind with a space behind it is taken off. With another blank behind it, the word is read
with the first clause of a list, or with the path before the braces. A list without such a word may
still look as if it had one (`LooksMarked`), and is then read from the end of its first path on.
-/

namespace CodeOutline.Php

open Text (isBlank)
open Chars (StartsSolid)

/-! ## Lists -/

theorem intercalate_append_cons (sep p q : List Char) (ps : List (List Char)) :
    sep.intercalate ((p ++ q) :: ps) = p ++ sep.intercalate (q :: ps) := by
  cases ps with
  | nil => simp
  | cons r ps => simp [List.intercalate_cons_cons]

theorem not_mem_intercalate {parts : List (List Char)} (h : ∀ p ∈ parts, Plain p) {c : Char}
    (hplain : isPlain c = false) (hcomma : c ≠ ',') : c ∉ [','].intercalate parts := by
  intro hc
  rcases Chars.mem_intercalate hc with hc | ⟨p, hp, hc⟩
  · exact hcomma (List.mem_singleton.mp hc)
  · exact (h p hp).not_mem hplain hc

theorem mem_of_mem_kindless {cs : List Char} {c : Char} (h : c ∈ kindless cs) : c ∈ cs := by
  by_cases hmarked : Marked cs
  · obtain ⟨k, rest, rfl⟩ := hmarked
    rw [kindless_word] at h
    simp [(List.dropWhile_sublist isBlank).mem h]
  · rwa [kindless_of_not_marked hmarked] at h

/-- The import that is read from a part, unless nothing is left of it. -/
def readPart (root : String) (p : List Char) : List Import :=
  if kindless (Chars.trim p) = [] then []
  else [clauseImport root (String.ofList (kindless (Chars.trim p)))]

theorem flatMap_readPart {α : Type} (root : String) {f : α → List Char} (as : List α)
    (h : ∀ a ∈ as, kindless (Chars.trim (f a)) ≠ []) :
    (as.map f).flatMap (readPart root) =
      as.map fun a => clauseImport root (String.ofList (kindless (Chars.trim (f a)))) := by
  rw [List.flatMap_map, List.map_eq_flatMap]
  refine List.flatMap_congr fun a ha => ?_
  rw [readPart, if_neg (h a ha)]

/-- Plain parts are read one by one. -/
theorem readPieces_intercalate (root : String) {parts : List (List Char)}
    (h : ∀ p ∈ parts, Plain p) :
    readPieces root ([','].intercalate parts) = parts.flatMap (readPart root) := by
  have hparts : ∀ parts : List (List Char),
      (((parts.map fun p => kindless (Chars.trim p)).filter fun p => !p.isEmpty).map
        fun p => clauseImport root (String.ofList p)) = parts.flatMap (readPart root) := by
    intro parts
    induction parts with
    | nil => rfl
    | cons p parts ih =>
      rw [List.map_cons, List.flatMap_cons, ← ih, readPart]
      by_cases hp : kindless (Chars.trim p) = [] <;> simp [hp]
  by_cases hne : parts = []
  · subst hne
    rfl
  · rw [readPieces, pieces_intercalate hne fun p hp => (h p hp).loose, hparts]

theorem trim_solid_append {cs ds : List Char} (hne : cs ≠ [])
    (h : ∀ c ∈ cs, isBlank c = false) :
    Chars.trim (cs ++ ds) = cs ++ Chars.dropEndWhile isBlank ds := by
  obtain ⟨front, c, rfl⟩ := List.eq_nil_or_concat cs |>.resolve_left hne
  rw [List.concat_eq_append] at h ⊢
  obtain ⟨hfront, hc⟩ := List.forall_mem_append.mp h
  rw [List.append_assoc, List.singleton_append, Chars.trim_append_cons (hc c (by simp)),
    (Chars.startsSolid_of_solid hfront).dropWhile_eq, List.append_assoc, List.singleton_append]

theorem readPieces_trim (root : String) (cs : List Char) :
    readPieces root (Chars.trim cs) = readPieces root cs := by
  rw [readPieces, pieces_trim, readPieces]

namespace UseBody

variable (first : ListClause) (more : List ListClause)

/-- The text of a list. -/
def listChars : List Char := [','].intercalate (first.chars :: more.map ListClause.chars)

theorem plain_parts {part : List Char} (hpart : Plain part) :
    ∀ p ∈ part :: more.map ListClause.chars, Plain p := by
  intro p hp
  rcases List.mem_cons.mp hp with rfl | hp
  · exact hpart
  · obtain ⟨c, -, rfl⟩ := List.mem_map.mp hp
    exact c.plain

theorem readPart_list (clauses : List ListClause) :
    (clauses.map ListClause.chars).flatMap (readPart "") =
      clauses.map fun c => clauseImport "" (String.ofList c.read) :=
  flatMap_readPart "" clauses fun c _ => c.read_ne_nil

/-- **A list gives its imports** exactly if all clauses are clear. -/
theorem readPieces_list_iff :
    readPieces "" (listChars first more) =
        (first :: more).map (fun c => c.clause.imported []) ↔
      ∀ c ∈ first :: more, c.Clear := by
  rw [listChars, readPieces_intercalate "" (plain_parts more first.plain), ← List.map_cons,
    readPart_list, List.map_inj_left]
  exact forall₂_congr fun c _ => c.clauseImport_read_iff

/-- A list whose first part is read as something else does not give its imports. -/
theorem readPieces_ne {part : List Char} (hpart : Plain part)
    (h : kindless (Chars.trim part) = [] ∨ Misread first.clause (kindless (Chars.trim part))) :
    readPieces "" ([','].intercalate (part :: more.map ListClause.chars)) ≠
      (first :: more).map fun c => c.clause.imported [] := by
  rw [readPieces_intercalate "" (plain_parts more hpart), List.flatMap_cons, readPart_list,
    readPart]
  intro heq
  rcases h with hnil | hmisread
  · rw [if_pos hnil] at heq
    simpa using congrArg List.length heq
  · rw [if_neg hmisread.ne_nil, List.singleton_append, List.map_cons] at heq
    exact hmisread.clauseImport_ne leadsTo_nil (List.cons.inj heq).1

/-- A list from the end of the first path on. -/
def listTail : List Char :=
  [','].intercalate ((first.clause.asChars ++ first.after.chars) :: more.map ListClause.chars)

theorem listChars_eq : listChars first more = first.before.chars ++
    (backslashes first.slashes ++ first.clause.core ++ listTail first more) := by
  have hfirst : first.chars = first.before.chars ++ (backslashes first.slashes ++
      first.clause.core ++ (first.clause.asChars ++ first.after.chars)) := by
    simp [ListClause.chars, ListClause.inner, Clause.chars]
  rw [listChars, hfirst, intercalate_append_cons, intercalate_append_cons, listTail]

theorem trim_listChars : Chars.trim (listChars first more) =
    backslashes first.slashes ++ first.clause.core ++
      Chars.dropEndWhile isBlank (listTail first more) := by
  have hcore : backslashes first.slashes ++ first.clause.core ≠ [] := by
    simp [first.clause.core_ne_nil]
  rw [listChars_eq, Chars.trim_blank_append first.before.isBlank_of_mem,
    trim_solid_append hcore (first.clause.solid_backslashes_append _)]

/-- What follows the first path: a new name, blanks or a comma. -/
theorem head?_listTail :
    (∀ d ∈ (Chars.dropEndWhile isBlank (listTail first more)).head?, isNameChar d = false) ∧
    ((Chars.dropEndWhile isBlank (listTail first more)).head? = some ' ' ↔
      first.clause.rename ≠ none ∨ more ≠ [] ∧ first.after.chars.head? = some ' ') := by
  rw [listTail, Clause.asChars]
  cases first.clause.rename with
  | some i =>
    have htail : [','].intercalate ((" as ".toList ++ i.chars ++ first.after.chars) ::
        more.map ListClause.chars) = [' '] ++ 'a' :: ("s ".toList ++
        [','].intercalate ((i.chars ++ first.after.chars) :: more.map ListClause.chars)) := by
      rw [List.append_assoc, intercalate_append_cons]
      rfl
    simp only [Option.map_some, Option.getD_some]
    rw [htail, Chars.dropEndWhile_append_cons (by decide)]
    simp [show isNameChar ' ' = false by decide]
  | none =>
    cases more with
    | nil => simp [Chars.dropEndWhile_eq_nil first.after.isBlank_of_mem]
    | cons c more =>
      have hblank := first.after.isBlank_of_mem
      simp only [Option.map_none, Option.getD_none, List.nil_append, List.map_cons,
        List.intercalate_cons_cons, List.append_assoc, List.singleton_append]
      rw [Chars.dropEndWhile_append_cons (by decide)]
      cases hafter : first.after.chars with
      | nil => simp [show isNameChar ',' = false by decide]
      | cons d ds =>
        rw [hafter] at hblank
        simp [isNameChar, hblank d List.mem_cons_self]

/-- The list looks like a word for a kind and a list behind it. -/
def LooksMarked : Prop := first.slashes = 0 ∧ first.clause.IsWord ∧
  (first.clause.rename ≠ none ∨ more ≠ [] ∧ first.after.chars.head? = some ' ')

theorem marked_listChars_iff :
    Marked (Chars.trim (listChars first more)) ↔ LooksMarked first more := by
  obtain ⟨hhead, hspace⟩ := head?_listTail first more
  rw [trim_listChars, marked_append_iff (first.clause.solid_backslashes_append _) hhead,
    Clause.eq_word_iff, hspace, LooksMarked, and_assoc]

/-- Such a list is read from the end of the first path on. -/
theorem readPieces_of_marked (h : Marked (Chars.trim (listChars first more))) :
    readPieces "" (kindless (Chars.trim (listChars first more))) =
      readPieces "" (listTail first more) := by
  rw [trim_listChars] at h ⊢
  obtain ⟨⟨k, hword⟩, hspace⟩ := (marked_append_iff
    (first.clause.solid_backslashes_append _) (head?_listTail first more).1).mp h
  obtain ⟨rest, hrest⟩ := List.head?_eq_some_iff.mp hspace
  have htrim : Chars.trim (listTail first more) = Chars.trim rest := by
    rw [← Chars.trim_dropEndWhile, hrest, ← List.singleton_append,
      Chars.trim_blank_append (List.forall_mem_singleton.mpr (by decide))]
  rw [hword, hrest, kindless_word, ← readPieces_trim, Chars.trim_dropWhile, ← htrim,
    readPieces_trim]

theorem read_asChars (c : Clause) :
    kindless (Chars.trim c.asChars) = [] ∨ Misread c (kindless (Chars.trim c.asChars)) := by
  cases hrename : c.rename with
  | none =>
    have hnil : c.asChars = [] := by simp [Clause.asChars, hrename]
    exact Or.inl (by rw [hnil]; rfl)
  | some i =>
    have hchars : c.asChars = [' '] ++ ("as ".toList ++ i.chars) := by
      simp [Clause.asChars, hrename]
    have htrim : Chars.trim c.asChars = "as ".toList ++ i.chars := by
      rw [hchars, Chars.trim_blank_append (List.forall_mem_singleton.mpr (by decide))]
      exact Chars.trim_append_solid (Chars.startsSolid_cons (by decide) _) i.ne_nil
        i.not_isBlank_of_mem
    have hsolid : ∀ d ∈ ['a', 's'], isBlank d = false :=
      List.forall_mem_cons.mpr ⟨by decide, List.forall_mem_singleton.mpr (by decide)⟩
    have hnot : ¬ Marked (['a', 's'] ++ ' ' :: i.chars) := by
      rw [marked_append_iff hsolid (by simp [show isNameChar ' ' = false by decide])]
      rintro ⟨⟨k, hword⟩, -⟩
      cases k <;> exact absurd hword (by decide)
    rw [htrim]
    exact Or.inr ((kindless_of_not_marked hnot).symm ▸ .short hrename)

/-- Where there are no braces, commas alone tell the clauses apart. -/
theorem listed_of_not_mem {cs : List Char} (h : '\x7b' ∉ cs) :
    listed (String.ofList (kindless (Chars.trim cs))) =
      readPieces "" (kindless (Chars.trim cs)) :=
  listed_list fun hmem => h (Chars.mem_of_mem_trim (mem_of_mem_kindless hmem))

theorem legible_list_none_iff : (list none first more).Legible ↔
    ¬ LooksMarked first more ∧ ∀ c ∈ first :: more, c.Clear := by
  rw [Legible, LooksMarked, List.forall_mem_cons, ListClause.Clear, Clause.Clear]
  tauto

/-- **A list without a word for a kind** gives its imports exactly if it is legible. -/
theorem listed_list_none_iff :
    listed (String.ofList (kindless (Chars.trim (listChars first more)))) =
        (first :: more).map (fun c => c.clause.imported []) ↔
      (list none first more).Legible := by
  have hbrace : '\x7b' ∉ listChars first more :=
    not_mem_intercalate (plain_parts more first.plain) (by decide) (by decide)
  rw [listed_of_not_mem hbrace, legible_list_none_iff, ← marked_listChars_iff]
  by_cases hmarked : Marked (Chars.trim (listChars first more))
  · -- the first clause is cut down to its new name, or to nothing
    simp only [hmarked, not_true_eq_false, false_and, iff_false]
    rw [readPieces_of_marked first more hmarked]
    refine readPieces_ne first more (first.clause.plain_asChars.append first.after.plain) ?_
    rw [Chars.trim_append_blank first.after.isBlank_of_mem]
    exact read_asChars first.clause
  · simp only [hmarked, not_false_eq_true, true_and]
    rw [kindless_of_not_marked hmarked, readPieces_trim]
    exact readPieces_list_iff first more

/-- A word for a kind with a space behind it is taken off. -/
theorem kindless_trim_spaced {k : KindWord} (hspaced : k.Spaced) {cs : List Char}
    (h : ∃ c ∈ cs, isBlank c = false) :
    kindless (Chars.trim (k.chars ++ cs)) = Chars.trim cs := by
  obtain ⟨c, hc, hsolid⟩ := h
  have hblank : k.blank = ' ' := hspaced
  rw [KindWord.chars_append, hblank,
    kindless_trim_word k.kind ⟨c, List.mem_append_right _ hc, hsolid⟩,
    Chars.trim_blank_append k.more.isBlank_of_mem]

/-- With another blank behind it, it stays. -/
theorem kindless_trim_of_not_spaced {k : KindWord} (h : ¬ k.Spaced) (cs : List Char) :
    kindless (Chars.trim (k.chars ++ cs)) = Chars.trim (k.chars ++ cs) := by
  rw [k.chars_append]
  exact kindless_trim_unspaced k.kind k.isBlank h _

/-- A clause behind such a word is read together with it. -/
theorem misread_of_not_spaced {k : KindWord} (h : ¬ k.Spaced) (c : ListClause) :
    Misread c.clause (kindless (Chars.trim (k.chars ++ c.chars))) := by
  have hchars : k.chars ++ c.chars = k.kind.word ++ (k.blank :: (k.more.chars ++
      (c.before.chars ++ backslashes c.slashes))) ++ c.clause.chars ++ c.after.chars := by
    simp [KindWord.chars, ListClause.chars, ListClause.inner]
  rw [kindless_trim_of_not_spaced h, hchars, Chars.trim_append_blank c.after.isBlank_of_mem,
    c.clause.trim_append_chars, List.append_assoc]
  · exact .long k.kind _
  · rw [List.append_assoc]
    exact k.kind.startsSolid_word_append _

/-- **A list behind a word for a kind** gives its imports exactly if it is legible. -/
theorem listed_list_some_iff (k : KindWord) :
    listed (String.ofList (kindless (Chars.trim (k.chars ++ listChars first more)))) =
        (first :: more).map (fun c => c.clause.imported []) ↔
      (list (some k) first more).Legible := by
  have hchars : k.chars ++ listChars first more =
      [','].intercalate ((k.chars ++ first.chars) :: more.map ListClause.chars) := by
    rw [intercalate_append_cons, listChars]
  have hplain : Plain (k.chars ++ first.chars) := k.plain.append first.plain
  have hbrace := not_mem_intercalate (c := '\x7b') (plain_parts more hplain) (by decide) (by decide)
  rw [listed_of_not_mem (hchars ▸ hbrace), Legible]
  by_cases hspaced : k.Spaced
  · simp only [hspaced, true_and]
    obtain ⟨d, core, hcore⟩ := List.exists_cons_of_ne_nil first.clause.core_ne_nil
    have hsolid : ∃ c ∈ listChars first more, isBlank c = false :=
      ⟨d, by simp [listChars_eq, hcore],
        first.clause.not_isBlank_of_mem_core d (by simp [hcore])⟩
    rw [kindless_trim_spaced hspaced hsolid, readPieces_trim]
    exact readPieces_list_iff first more
  · simp only [hspaced, false_and, iff_false]
    rw [kindless_trim_of_not_spaced hspaced, readPieces_trim, hchars]
    exact readPieces_ne first more hplain (Or.inr (misread_of_not_spaced hspaced first))

/-! ## Groups -/

section Groups

variable (clauses : List GroupClause) (trailing : Option Blanks)

theorem plain_groupParts :
    ∀ p ∈ clauses.map GroupClause.chars ++ trailing.toList.map Blanks.chars, Plain p := by
  intro p hp
  rcases List.mem_append.mp hp with hp | hp
  · obtain ⟨c, -, rfl⟩ := List.mem_map.mp hp
    exact c.plain
  · obtain ⟨b, -, rfl⟩ := List.mem_map.mp hp
    exact b.plain

/-- The clauses in braces are read one by one. A comma after the last one adds nothing. -/
theorem readPieces_groupChars (root : String) :
    readPieces root (groupChars clauses trailing) =
      clauses.map fun c => clauseImport root (String.ofList c.read) := by
  have hclauses : (clauses.map GroupClause.chars).flatMap (readPart root) =
      clauses.map fun c => clauseImport root (String.ofList c.read) :=
    flatMap_readPart root clauses fun c _ => c.read_ne_nil
  have htrailing : (trailing.toList.map Blanks.chars).flatMap (readPart root) = [] := by
    rw [List.flatMap_map, List.flatMap_eq_nil_iff]
    intro b _
    rw [readPart, Chars.trim_eq_nil b.isBlank_of_mem]
    rfl
  rw [groupChars, readPieces_intercalate root (plain_groupParts clauses trailing),
    List.flatMap_append, hclauses, htrailing, List.append_nil]

/-- **Clauses in braces give their imports** below the path that they share exactly if all of them
are clear. -/
theorem readPieces_groupChars_iff {root : String} {path : List Identifier}
    (hroot : LeadsTo root path) :
    readPieces root (groupChars clauses trailing) =
        clauses.map (fun c => c.clause.imported path) ↔
      ∀ c ∈ clauses, c.Clear := by
  rw [readPieces_groupChars, List.map_inj_left]
  exact forall₂_congr fun c _ => c.clauseImport_read_iff hroot

end Groups

theorem toList_rootText (cs : List Char) :
    (rootText cs).toList = Chars.dropEndWhile (fun c => c ∈ ['\\']) (Chars.trim cs) := by
  rw [rootText, Text.dropEnd, Text.trim]
  simp only [String.toList_ofList]

/-- The path before the braces goes up to its last name. -/
theorem toList_rootText_stem {front : List Char} {path : List Identifier} (hpath : path ≠ [])
    (hfront : StartsSolid (front ++ stem path)) (gap : Blanks) :
    (rootText (front ++ (stem path ++ gap.chars))).toList =
      front ++ (pathText path).toList := by
  obtain ⟨names, i, rfl⟩ := List.eq_nil_or_concat path |>.resolve_left hpath
  obtain ⟨chars, c, hchars⟩ := List.eq_nil_or_concat i.chars |>.resolve_left i.ne_nil
  rw [List.concat_eq_append] at hchars hpath hfront ⊢
  have hc : c ≠ '\\' :=
    ne_of_isNameChar (Identifier.isNameChar_of_mem (i := i) (by simp [hchars])) (by decide)
  have htext : (pathText (names ++ [i])).toList = stem names ++ (chars ++ [c]) := by
    rw [toList_pathText_concat, hchars]
  rw [stem_eq hpath, ← List.append_assoc] at hfront
  rw [toList_rootText, ← List.append_assoc, Chars.trim_append_blank gap.isBlank_of_mem,
    stem_eq hpath, ← List.append_assoc,
    Chars.trim_append_solid hfront (by simp) (List.forall_mem_singleton.mpr (by decide)),
    Chars.dropEndWhile_append_of_pos (by simp), htext, ← List.append_assoc, ← List.append_assoc,
    Chars.dropEndWhile_append_cons (by simpa using hc)]
  rfl

theorem not_isBlank_of_mem_root (slashes : Nat) (path : List Identifier) :
    ∀ c ∈ backslashes slashes ++ stem path, isBlank c = false :=
  List.forall_mem_append.mpr ⟨not_isBlank_of_mem_backslashes _, not_isBlank_of_mem_stem _⟩

/-- **The path before the braces** is read without the backslash at its end. -/
theorem leadsTo_rootText (slashes : Nat) (path : List Identifier) (gap : Blanks) :
    LeadsTo (rootText (rootChars slashes path gap)) path := by
  rw [LeadsTo]
  split
  · next hpath =>
    rw [hpath, ← String.toList_inj, toList_rootText, rootChars]
    show Chars.dropEndWhile _ (Chars.trim (backslashes slashes ++ gap.chars)) = []
    rw [Chars.trim_append_blank gap.isBlank_of_mem,
      Chars.trim_of_solid (not_isBlank_of_mem_backslashes slashes)]
    exact Chars.dropEndWhile_eq_nil fun c hc => by simp [List.eq_of_mem_replicate hc]
  · next hpath =>
    have hsolid := Chars.startsSolid_of_solid (not_isBlank_of_mem_root slashes path)
    exact ⟨slashes, toList_rootText_stem hpath hsolid gap⟩

theorem head?_rootText {c : Char} (hc : isNameChar c = true) (cs : List Char) :
    (rootText (c :: cs)).toList.head? = some c := by
  have hslash : c ≠ '\\' := ne_of_isNameChar hc (by decide)
  have htrim : Chars.trim ([] ++ c :: cs) = [] ++ c :: Chars.dropEndWhile isBlank cs :=
    Chars.trim_append_cons (not_isBlank_of_isNameChar hc)
  rw [List.nil_append, List.nil_append] at htrim
  rw [toList_rootText, htrim, Chars.dropEndWhile_cons_of_neg (by simpa using hslash)]
  rfl

/-- A word that is read with the path makes it longer. -/
theorem weight_stem_lt (k : KindWord) (slashes : Nat) (path : List Identifier) (gap : Blanks) :
    weight (stem path) < weight (rootText (k.chars ++ rootChars slashes path gap)).toList + 1 := by
  by_cases hpath : path = []
  · rw [hpath]
    exact Nat.succ_pos _
  · have hsolid : StartsSolid (k.chars ++ backslashes slashes ++ stem path) := by
      rw [List.append_assoc, k.chars_append]
      exact k.kind.startsSolid_word_append _
    have hpos := k.kind.weight_word_pos
    have hslash : weight ['\\'] = 1 := rfl
    rw [rootChars, ← List.append_assoc, toList_rootText_stem hpath hsolid, stem_eq hpath]
    simp only [KindWord.chars, weight_append]
    omega

/-- The path before the braces does not look like a word for a kind. -/
theorem not_marked_group (slashes : Nat) (path : List Identifier) (gap : Blanks)
    (rest : List Char) :
    ¬ Marked (Chars.trim (rootChars slashes path gap ++ '\x7b' :: rest)) := by
  have hsolid := not_isBlank_of_mem_root slashes path
  have hword : ¬ ∃ k : ImportKind, backslashes slashes ++ stem path = k.word := by
    rintro ⟨k, hword⟩
    obtain ⟨rfl, rfl⟩ := eq_nil_of_slash_not_mem (hword ▸ k.not_mem_word (by decide))
    exact k.word_ne_nil hword.symm
  obtain ⟨blanks, hblanks, hdrop⟩ : ∃ blanks : List Char, (∀ c ∈ blanks, isBlank c = true) ∧
      (rootChars slashes path gap).dropWhile isBlank =
        backslashes slashes ++ stem path ++ blanks := by
    rw [rootChars, ← List.append_assoc]
    cases hroot : backslashes slashes ++ stem path with
    | nil =>
      exact ⟨[], List.forall_mem_nil _, List.dropWhile_eq_nil_iff.mpr gap.isBlank_of_mem⟩
    | cons c root =>
      have hc : isBlank c = false := hsolid c (by simp [hroot])
      exact ⟨gap.chars, gap.isBlank_of_mem, (Chars.startsSolid_cons hc _).dropWhile_eq⟩
  rw [Chars.trim_append_cons (by decide), hdrop, List.append_assoc, marked_append_iff hsolid]
  · exact fun h => hword h.1
  · cases blanks with
    | nil => simp [show isNameChar '\x7b' = false by decide]
    | cons c blanks => simp [isNameChar, hblanks c List.mem_cons_self]

theorem kindless_trim_group {kind : Option KindWord} (h : ∀ k ∈ kind, k.Spaced) (slashes : Nat)
    (path : List Identifier) (gap : Blanks) (rest : List Char) :
    kindless (Chars.trim ((kind.map KindWord.chars).getD [] ++
        (rootChars slashes path gap ++ '\x7b' :: rest))) =
      Chars.trim (rootChars slashes path gap ++ '\x7b' :: rest) := by
  cases kind with
  | none => exact kindless_of_not_marked (not_marked_group slashes path gap rest)
  | some k => exact kindless_trim_spaced (h k rfl) ⟨'\x7b', by simp, by decide⟩

theorem plain_rootChars (slashes : Nat) (path : List Identifier) (gap : Blanks) :
    Plain (rootChars slashes path gap) :=
  (plain_backslashes slashes).append ((plain_stem path).append gap.plain)

/-- Below a path that is read with a word before it, no clause gives its import. -/
theorem clauseImport_ne_of_unspaced (k : KindWord) (slashes : Nat) (path : List Identifier)
    (gap : Blanks) (c : GroupClause) :
    clauseImport (rootText (k.chars ++ rootChars slashes path gap)) (String.ofList c.read) ≠
      c.clause.imported path := by
  obtain ⟨d, rest, hword, hname⟩ := k.kind.exists_word_eq_cons
  have hhead : (rootText (k.chars ++ rootChars slashes path gap)).toList.head? = some d := by
    rw [KindWord.chars, hword]
    exact head?_rootText hname _
  have hread : c.read = c.clause.chars ∨ Misread c.clause c.read := by
    by_cases hclear : c.Clear
    · exact Or.inl (c.read_of_clear hclear)
    · exact Or.inr (c.misread_of_not_clear hclear)
  exact Misread.clauseImport_ne_of_weight hread hhead hname (weight_stem_lt k slashes path gap)

/-- **A group** gives its imports exactly if it is legible. -/
theorem listed_group_iff (kind : Option KindWord) (slashes : Nat) (path : List Identifier)
    (gap : Blanks) (clauses : List GroupClause) (trailing : Option Blanks) :
    listed (String.ofList (kindless (Chars.trim
        (group kind slashes path gap clauses trailing).chars))) =
        clauses.map (fun c => c.clause.imported path) ↔
      (group kind slashes path gap clauses trailing).Legible := by
  rw [chars, UseBody.kind, restChars, Legible]
  by_cases hspaced : ∀ k ∈ kind, k.Spaced
  · have hbrace : '\x7b' ∉ rootChars slashes path gap :=
      (plain_rootChars slashes path gap).not_mem (by decide)
    rw [kindless_trim_group hspaced, listed_group hbrace,
      readPieces_groupChars_iff clauses trailing (leadsTo_rootText slashes path gap)]
    exact ⟨fun h => ⟨fun _ => hspaced, h⟩, fun h => h.2⟩
  · obtain ⟨k, rfl, hunspaced⟩ : ∃ k, kind = some k ∧ ¬ k.Spaced := by
      simpa using hspaced
    have hbrace : '\x7b' ∉ k.chars ++ rootChars slashes path gap :=
      (k.plain.append (plain_rootChars slashes path gap)).not_mem (by decide)
    simp only [Option.map_some, Option.getD_some]
    rw [kindless_trim_of_not_spaced hunspaced, ← List.append_assoc, listed_group hbrace,
      readPieces_groupChars]
    cases clauses with
    | nil => simp -- nothing is imported, so the path does not matter
    | cons c clauses =>
      simp only [List.map_cons, List.cons.injEq, clauseImport_ne_of_unspaced, false_and, false_iff]
      exact fun h => hspaced (h.1 (List.cons_ne_nil c clauses))

/-- **The body of a declaration** gives its imports exactly if it is legible. -/
theorem listed_iff (b : UseBody) :
    listed (String.ofList (kindless (Chars.trim b.chars))) = b.imports ↔ b.Legible := by
  cases b with
  | list kind first more =>
    cases kind with
    | none => exact listed_list_none_iff first more
    | some k => exact listed_list_some_iff first more k
  | group kind slashes path gap clauses trailing =>
    exact listed_group_iff kind slashes path gap clauses trailing

theorem semicolon_not_mem_chars (b : UseBody) : ';' ∉ b.chars := by
  have hkind : ';' ∉ (b.kind.map KindWord.chars).getD [] := (plain_kindChars _).not_mem (by decide)
  rw [chars, List.mem_append]
  refine fun hmem => hmem.elim hkind ?_
  cases b with
  | list kind first more =>
    exact not_mem_intercalate (plain_parts more first.plain) (by decide) (by decide)
  | group kind slashes path gap clauses trailing =>
    have hroot : ';' ∉ rootChars slashes path gap :=
      (plain_rootChars slashes path gap).not_mem (by decide)
    have hgroup : ';' ∉ groupChars clauses trailing :=
      not_mem_intercalate (plain_groupParts clauses trailing) (by decide) (by decide)
    simp [restChars, hroot, hgroup]

end UseBody

/-! ## Declarations -/

/-- **A use declaration** makes one import for each clause, in order, exactly if it is legible. -/
theorem UseDeclaration.useImports_text_iff (d : UseDeclaration) :
    useImports d.text = d.imports ↔ d.Legible := by
  have hstop : d.stop = [] ∨ d.stop = [';'] := by
    rw [stop]
    cases d.ended <;> simp
  rw [text, chars, useImports_text d.gap.isBlank_of_mem d.after.isBlank_of_mem
    d.body.semicolon_not_mem_chars hstop]
  exact d.body.listed_iff

theorem rule_eq_map_iff {src : String} {scope : Scope} {c : Cursor}
    (hkind : c.node.kind = "namespace_use_declaration") (imports : List Import) :
    rule src scope c = imports.map Item.imports ↔ useImports (c.node.text src) = imports := by
  have hinjective : Function.Injective Item.imports := by
    intro i j heq
    injection heq with hfound
    injection hfound
  have hrule : rule src scope c = (useImports (c.node.text src)).map Item.imports := by
    simp only [rule, hkind]
  rw [hrule, hinjective.list_map.eq_iff]

/-- **Use declarations.** Where a declaration stands in a file, one import is found for each of its
clauses, in order, exactly if it is legible: the name that the path of the clause leads to, below
the path before the braces, with the new name if there is one. -/
theorem use_imports_clauses_iff (d : UseDeclaration) {src : String} {scope : Scope} {c : Cursor}
    (hkind : c.node.kind = "namespace_use_declaration") (htext : c.node.text src = d.text) :
    rule src scope c = d.imports.map Item.imports ↔ d.Legible := by
  rw [rule_eq_map_iff hkind, htext]
  exact d.useImports_text_iff

/-! ### A group, and a word at the end of a line -/

def bareClause (names : List String) (name : String) (rename : Option String) : Clause :=
  ⟨names.map Identifier.ofText, .ofText name, rename.map Identifier.ofText⟩

/-- `use \A\{b as c, const D\E,};` -/
def groupUse : UseDeclaration where
  gap := .ofText " "
  body := .group none 1 [.ofText "A"] (.ofText "")
    [⟨.ofText "", none, bareClause [] "b" (some "c"), .ofText ""⟩,
      ⟨.ofText " ", some (.ofText .const ' '), bareClause ["D"] "E" none, .ofText ""⟩]
    (some (.ofText ""))
  after := .ofText ""
  ended := true

def groupSource : String := "<?php\nuse \\A\\\x7bb as c, const D\\E,\x7d;\n"

/-- `use function` and, on the next line, `A\f;` -/
def brokenUse : UseDeclaration where
  gap := .ofText " "
  body := .list (some (.ofText .function '\n'))
    ⟨.ofText "", 0, bareClause ["A"] "f" none, .ofText ""⟩ []
  after := .ofText ""
  ended := true

def brokenSource : String := "<?php\nuse function\nA\\f;\n"

def phpTag : Tree := .node ⟨"php_tag", true, false, false, none, 0, 5⟩ []

/-- A declaration on the second line, which ends at `stop`. -/
def useNode (stop : Nat) : Tree :=
  .node ⟨"namespace_use_declaration", true, false, false, none, 6, stop⟩ []

/-- The place of such a declaration in a file that holds nothing else. -/
def useAt (stop : Nat) : Cursor :=
  (Cursor.root (.node ⟨"program", true, false, false, none, 0, stop + 1⟩
    [phpTag, useNode stop])).childAt [phpTag] (useNode stop) []

theorem text_groupUse : (useAt 34).node.text groupSource = groupUse.text := by decide +kernel

theorem text_brokenUse : (useAt 23).node.text brokenSource = brokenUse.text := by decide +kernel

theorem legible_groupUse : groupUse.Legible := by
  refine ⟨fun _ => nofun, ?_⟩
  simp only [List.forall_mem_cons]
  refine ⟨?_, rfl, nofun⟩
  rintro ⟨-, k, hword⟩
  cases k <;> exact absurd hword (by decide)

theorem not_legible_brokenUse : ¬ brokenUse.Legible := by
  rintro ⟨hspaced, -⟩
  have hblank : '\n' = ' ' := hspaced
  exact absurd hblank (by decide)

/-- The group gives both its imports. With the word at the end of a line, the import is another. -/
theorem use_imports_groupUse :
    rule groupSource {} (useAt 34) =
      [Item.imports (.member "A" "b" (some "c")), Item.imports (.member "A\\D" "E" none)] ∧
    rule brokenSource {} (useAt 23) ≠ [Item.imports (.member "A" "f" none)] := by
  have hgroup : groupUse.imports = [.member "A" "b" (some "c"), .member "A\\D" "E" none] := by
    decide +kernel
  have hbroken : brokenUse.imports = [.member "A" "f" none] := by decide +kernel
  have hread : rule groupSource {} (useAt 34) = groupUse.imports.map Item.imports :=
    (use_imports_clauses_iff groupUse rfl text_groupUse).mpr legible_groupUse
  have hmisread : rule brokenSource {} (useAt 23) ≠ brokenUse.imports.map Item.imports :=
    (use_imports_clauses_iff brokenUse rfl text_brokenUse).not.mpr not_legible_brokenUse
  rw [hgroup] at hread
  rw [hbroken] at hmisread
  exact ⟨hread, hmisread⟩

/-- Not every declaration gives the imports of its clauses. -/
theorem kind_read_as_path :
    ¬ ∀ (d : UseDeclaration) (src : String) (scope : Scope) (c : Cursor),
      c.node.kind = "namespace_use_declaration" → c.node.text src = d.text →
      rule src scope c = d.imports.map Item.imports := by
  intro h
  have hrule := h brokenUse brokenSource {} (useAt 23) rfl text_brokenUse
  have hread := (rule_eq_map_iff rfl _).mp hrule
  revert hread
  decide +kernel

end CodeOutline.Php
