import CodeOutline.Proofs.ParentPaths
import CodeOutline.Proofs.UseClauses.Syntax
import CodeOutline.Proofs.UseTrees.Slashes

/-!
# Reading use declarations

A `use` declaration is read from its text alone. The word for a kind is taken off the front, then
the text is cut at its braces and at commas, and the word for a kind is taken off the front of each
piece again. `kindless` and `pieces` say these steps for lists of characters.

A word is taken off only where a space follows it (`kindless_trim_word`, `kindless_trim_unspaced`).
Blanks around the text and around its pieces do not matter (`pieces_trim`), so a declaration is read
as its body (`useImports_text`), with or without braces (`listed_list`, `listed_group`).
-/

namespace CodeOutline

open Text (isBlank)

/-! ## Splitting and blanks -/

namespace Chars

variable {sep : Char} {angles : Bool} {cs bs : List Char}

theorem splitTopFrom_of_not_mem (h : sep ∉ cs) (n : Nesting) :
    splitTopFrom sep angles n cs = [cs] := by
  induction cs generalizing n with
  | nil => rfl
  | cons c cs ih =>
    have hc : ¬ (c = sep ∧ n.isTop) := fun hsep => h (hsep.1 ▸ List.mem_cons_self)
    rw [splitTopFrom_cons, if_neg hc, ih fun hmem => h (List.mem_cons_of_mem c hmem)]
    rfl

/-- Text without a separator at the end belongs to the last piece. -/
theorem exists_splitTopFrom_append (h : sep ∉ bs) (n : Nesting) (cs : List Char) :
    ∃ front last, splitTopFrom sep angles n cs = front ++ [last] ∧
      splitTopFrom sep angles n (cs ++ bs) = front ++ [last ++ bs] := by
  induction cs generalizing n with
  | nil => exact ⟨[], [], rfl, splitTopFrom_of_not_mem h n⟩
  | cons c cs ih =>
    rw [List.cons_append, splitTopFrom_cons, splitTopFrom_cons]
    by_cases hsep : c = sep ∧ n.isTop
    · obtain ⟨front, last, hcs, happend⟩ := ih n
      rw [if_pos hsep, if_pos hsep, hcs, happend]
      exact ⟨[] :: front, last, rfl, rfl⟩
    · obtain ⟨front, last, hcs, happend⟩ := ih (n.step angles c)
      rw [if_neg hsep, if_neg hsep, hcs, happend]
      cases front with
      | nil => exact ⟨[], c :: last, rfl, rfl⟩
      | cons piece front => exact ⟨(c :: piece) :: front, last, rfl, rfl⟩

end Chars

namespace Php

open Rust (Loose isLoose isLoose_of_isBlank)
open Chars (StartsSolid)

/-! ## Characters -/

theorem not_isBlank_of_isNameChar {c : Char} (h : isNameChar c = true) : isBlank c = false := by
  simp only [isNameChar, Bool.and_eq_true, Bool.not_eq_true'] at h
  exact h.1

theorem ne_of_isNameChar {c d : Char} (h : isNameChar c = true) (hd : isNameChar d = false) :
    c ≠ d := by
  rintro rfl
  simp [h] at hd

theorem isLoose_of_isNameChar {c : Char} (h : isNameChar c = true) : isLoose c = true := by
  simp only [isNameChar, Bool.and_eq_true, decide_eq_true_eq, List.mem_cons, List.not_mem_nil,
    or_false, not_or] at h
  simp [isLoose, h]

namespace Identifier

variable (i : Identifier)

theorem isNameChar_of_mem {i : Identifier} {c : Char} (h : c ∈ i.chars) : isNameChar c = true :=
  List.all_eq_true.mp i.isName c h

theorem not_isBlank_of_mem : ∀ c ∈ i.chars, isBlank c = false :=
  fun _ hc => not_isBlank_of_isNameChar (isNameChar_of_mem hc)

theorem not_mem {c : Char} (hc : isNameChar c = false) : c ∉ i.chars :=
  fun h => ne_of_isNameChar (isNameChar_of_mem h) hc rfl

end Identifier

theorem Blanks.isBlank_of_mem (b : Blanks) : ∀ c ∈ b.chars, isBlank c = true :=
  List.all_eq_true.mp b.allBlank

/-! ## Words for kinds -/

namespace ImportKind

variable (k : ImportKind)

theorem word_isNameChar : k.word.all isNameChar = true := by
  cases k <;> decide

theorem isNameChar_of_mem_word {k : ImportKind} {c : Char} (h : c ∈ k.word) :
    isNameChar c = true :=
  List.all_eq_true.mp k.word_isNameChar c h

theorem word_ne_nil : k.word ≠ [] := by
  cases k <;> decide

theorem not_isBlank_of_mem_word : ∀ c ∈ k.word, isBlank c = false :=
  fun _ hc => not_isBlank_of_isNameChar (isNameChar_of_mem_word hc)

theorem exists_word_eq_cons :
    ∃ (c : Char) (cs : List Char), k.word = c :: cs ∧ isNameChar c = true := by
  obtain ⟨c, cs, hword⟩ := List.exists_cons_of_ne_nil k.word_ne_nil
  exact ⟨c, cs, hword, isNameChar_of_mem_word (k := k) (by simp [hword])⟩

theorem not_mem_word {c : Char} (hc : isNameChar c = false) : c ∉ k.word :=
  fun h => ne_of_isNameChar (isNameChar_of_mem_word h) hc rfl

theorem startsSolid_word_append (cs : List Char) : StartsSolid (k.word ++ cs) := by
  intro c hc
  rw [List.head?_append_of_ne_nil _ k.word_ne_nil] at hc
  exact k.not_isBlank_of_mem_word c (List.mem_of_head? hc)

end ImportKind

/-- A text without the word for a kind at its front, and the blanks after it. -/
def kindless (cs : List Char) : List Char :=
  (((Chars.after? "function ".toList cs).or (Chars.after? "const ".toList cs)).map
    fun rest => rest.dropWhile isBlank).getD cs

theorem toList_dropKind (s : String) : (dropKind s).toList = kindless s.toList := by
  rw [dropKind, kindless, Text.afterStart?, Text.afterStart?]
  cases Chars.after? "function ".toList s.toList with
  | some rest => simp [Text.trimStart]
  | none =>
    cases Chars.after? "const ".toList s.toList with
    | some rest => simp [Text.trimStart]
    | none => rfl

/-- The text begins with a word for a kind and a space. -/
def Marked (cs : List Char) : Prop :=
  ∃ (k : ImportKind) (rest : List Char), cs = k.word ++ ' ' :: rest

theorem kindless_word (k : ImportKind) (rest : List Char) :
    kindless (k.word ++ ' ' :: rest) = rest.dropWhile isBlank := by
  cases k with
  | function =>
    have hafter : Chars.after? "function ".toList (ImportKind.function.word ++ ' ' :: rest) =
        some rest := Chars.after?_eq_some_iff.mpr rfl
    rw [kindless, hafter]
    rfl
  | const =>
    have hafter : Chars.after? "const ".toList (ImportKind.const.word ++ ' ' :: rest) =
        some rest := Chars.after?_eq_some_iff.mpr rfl
    have hother : Chars.after? "function ".toList (ImportKind.const.word ++ ' ' :: rest) = none :=
      Chars.after?_eq_none_iff.mpr fun hpre => by
        exact absurd (List.cons_prefix_cons.mp hpre).1 (by decide)
    rw [kindless, hafter, hother]
    rfl

theorem kindless_of_not_marked {cs : List Char} (h : ¬ Marked cs) : kindless cs = cs := by
  have hfunction : Chars.after? "function ".toList cs = none := by
    refine Chars.after?_eq_none_iff.mpr ?_
    rintro ⟨rest, rfl⟩
    exact h ⟨.function, rest, rfl⟩
  have hconst : Chars.after? "const ".toList cs = none := by
    refine Chars.after?_eq_none_iff.mpr ?_
    rintro ⟨rest, rfl⟩
    exact h ⟨.const, rest, rfl⟩
  rw [kindless, hfunction, hconst]
  rfl

/-- A solid text and what follows it begin with a word for a kind and a space exactly if the solid
text is that word. -/
theorem marked_append_iff {core cs : List Char} (hcore : ∀ c ∈ core, isBlank c = false)
    (hcs : ∀ c ∈ cs.head?, isNameChar c = false) :
    Marked (core ++ cs) ↔ (∃ k : ImportKind, core = k.word) ∧ cs.head? = some ' ' := by
  constructor
  · rintro ⟨k, rest, heq⟩
    -- the solid text and the word end at the same place
    rcases List.append_eq_append_iff.mp heq with ⟨extra, hword, hrest⟩ | ⟨extra, hword, hrest⟩
    · cases extra with
      | nil => exact ⟨⟨k, by simpa using hword.symm⟩, by simp [hrest]⟩
      | cons c extra =>
        have hc : isNameChar c = true :=
          ImportKind.isNameChar_of_mem_word (k := k) (by simp [hword])
        simp [hcs c (by simp [hrest])] at hc
    · cases extra with
      | nil =>
        rw [List.nil_append] at hrest
        exact ⟨⟨k, by simpa using hword⟩, by rw [← hrest, List.head?_cons]⟩
      | cons c extra =>
        obtain ⟨rfl, -⟩ := List.cons.inj hrest
        exact absurd (hcore ' ' (by simp [hword])) (by decide)
  · rintro ⟨⟨k, rfl⟩, hhead⟩
    obtain ⟨rest, rfl⟩ := List.head?_eq_some_iff.mp hhead
    exact ⟨k, rest, rfl⟩

/-- What begins with no blank loses blanks at its end only. -/
theorem StartsSolid.marked_of_trim {cs : List Char} (hcs : StartsSolid cs)
    (h : Marked (Chars.trim cs)) : Marked cs := by
  obtain ⟨before, after, hbefore, -, heq⟩ := Chars.exists_trim cs
  obtain ⟨k, rest, hmarked⟩ := h
  have hnil : before = [] := by
    cases before with
    | nil => rfl
    | cons c before =>
      have hsolid := hcs c (by rw [heq]; rfl)
      simp [hbefore c List.mem_cons_self] at hsolid
  refine ⟨k, rest ++ after, ?_⟩
  rw [heq, hnil, hmarked]
  simp

/-- **A word and a space** are taken off, with all blanks after them. -/
theorem kindless_trim_word (k : ImportKind) {rest : List Char}
    (h : ∃ c ∈ rest, isBlank c = false) :
    kindless (Chars.trim (k.word ++ ' ' :: rest)) = Chars.trim rest := by
  obtain ⟨c, hc, hsolid⟩ := h
  obtain ⟨front, back, rfl⟩ := List.append_of_mem hc
  have hfront : (k.word ++ ' ' :: front).dropWhile isBlank = k.word ++ ' ' :: front :=
    (k.startsSolid_word_append _).dropWhile_eq
  have htext : k.word ++ ' ' :: (front ++ c :: back) = k.word ++ ' ' :: front ++ c :: back := by
    simp
  rw [htext, Chars.trim_append_cons hsolid, hfront, List.append_assoc, List.cons_append,
    kindless_word, Chars.dropWhile_append_cons hsolid, Chars.trim_append_cons hsolid]

/-- **A word and another blank** are left as they are. -/
theorem kindless_trim_unspaced (k : ImportKind) {b : Char} (hb : isBlank b = true) (hne : b ≠ ' ')
    (rest : List Char) :
    kindless (Chars.trim (k.word ++ b :: rest)) = Chars.trim (k.word ++ b :: rest) := by
  refine kindless_of_not_marked fun hmarked => ?_
  have hword := StartsSolid.marked_of_trim (k.startsSolid_word_append (b :: rest)) hmarked
  rw [marked_append_iff k.not_isBlank_of_mem_word (by simp [isNameChar, hb])] at hword
  exact hne (Option.some.inj hword.2)

/-! ## Pieces -/

/-- The pieces between commas, each without blanks around it and without the word for a kind. -/
def pieces (cs : List Char) : List (List Char) :=
  ((Chars.splitTop ',' false cs).map fun p => kindless (Chars.trim p)).filter fun p => !p.isEmpty

theorem comma_not_mem_of_blank {bs : List Char} (h : ∀ c ∈ bs, isBlank c = true) : ',' ∉ bs :=
  fun hmem => absurd (h ',' hmem) (by decide)

theorem pieces_blank_append {bs : List Char} (h : ∀ c ∈ bs, isBlank c = true) (cs : List Char) :
    pieces (bs ++ cs) = pieces cs := by
  have hloose : Loose bs := fun c hc => isLoose_of_isBlank (h c hc)
  have hpasses : Chars.Passes ',' false {} bs := hloose.passes 0
  have hsplit : Chars.splitTop ',' false (bs ++ cs) =
      (Chars.splitTop ',' false cs).modifyHead (bs ++ ·) := by
    rw [Chars.splitTop, Chars.splitTopFrom_append hpasses.uncut, hpasses.back, Chars.splitTop]
  rw [pieces, hsplit, pieces]
  cases Chars.splitTop ',' false cs with
  | nil => rfl
  | cons p ps => simp only [List.modifyHead_cons, List.map_cons, Chars.trim_blank_append h]

theorem pieces_append_blank {bs : List Char} (h : ∀ c ∈ bs, isBlank c = true) (cs : List Char) :
    pieces (cs ++ bs) = pieces cs := by
  have hsplit : ∃ front last, Chars.splitTop ',' false cs = front ++ [last] ∧
      Chars.splitTop ',' false (cs ++ bs) = front ++ [last ++ bs] :=
    Chars.exists_splitTopFrom_append (comma_not_mem_of_blank h) {} cs
  obtain ⟨front, last, hcs, happend⟩ := hsplit
  rw [pieces, pieces, happend, hcs]
  simp only [List.map_append, List.map_cons, List.map_nil, Chars.trim_append_blank h]

theorem pieces_trim (cs : List Char) : pieces (Chars.trim cs) = pieces cs := by
  obtain ⟨before, after, hbefore, hafter, heq⟩ := Chars.exists_trim cs
  conv_rhs => rw [heq, pieces_append_blank hafter, pieces_blank_append hbefore]

/-- Loose parts with commas between them are read one by one. -/
theorem pieces_intercalate {parts : List (List Char)} (hne : parts ≠ [])
    (h : ∀ p ∈ parts, Loose p) :
    pieces ([','].intercalate parts) =
      (parts.map fun p => kindless (Chars.trim p)).filter fun p => !p.isEmpty := by
  rw [pieces, Chars.splitTop_intercalate hne fun p hp => (h p hp).passes 0]

/-! ## Declarations -/

/-- What a text imports once the first word for a kind is taken off. -/
def listed (text : String) : List Import :=
  let (root, clauses) := group text
  let clauses := (Text.splitTop ',' false clauses).map fun clause => dropKind (Text.trim clause)
  (clauses.filter fun clause => !clause.isEmpty).map (clauseImport root)

/-- The pieces of a text, each read below the path `root`. -/
def readPieces (root : String) (cs : List Char) : List Import :=
  (pieces cs).map fun p => clauseImport root (String.ofList p)

theorem clauses_eq (s : String) :
    (((Text.splitTop ',' false s).map fun clause => dropKind (Text.trim clause)).filter
      fun clause => !clause.isEmpty) = (pieces s.toList).map String.ofList := by
  have hclause : ∀ p : List Char, dropKind (Text.trim (String.ofList p)) =
      String.ofList (kindless (Chars.trim p)) := by
    intro p
    rw [← String.toList_inj, toList_dropKind, Text.trim]
    simp only [String.toList_ofList]
  have hempty : ∀ p : List Char, (String.ofList p).isEmpty = p.isEmpty := by
    intro p
    rw [Bool.eq_iff_iff]
    simp
  rw [Text.splitTop, pieces, List.map_map, List.filter_map, List.filter_map, List.map_map]
  simp only [Function.comp_def, hclause, hempty]

theorem listed_list {cs : List Char} (h : '\x7b' ∉ cs) :
    listed (String.ofList cs) = readPieces "" cs := by
  have hcut : Text.cut? "\x7b" (String.ofList cs) = none := by
    rw [Text.cut?, String.toList_ofList (l := cs)]
    exact congrArg (Option.map _) (Chars.cut?_eq_none h)
  have hgroup : group (String.ofList cs) = ("", String.ofList cs) := by
    rw [group, hcut]
    rfl
  rw [listed, hgroup]
  simp only [clauses_eq, String.toList_ofList, List.map_map, Function.comp_def, readPieces]

/-- The path before the braces, without blanks around it and without backslashes at its end. -/
def rootText (cs : List Char) : String := Text.dropEnd ['\\'] (Text.trim (String.ofList cs))

theorem listed_group {root : List Char} (h : '\x7b' ∉ root) (inner : List Char) :
    listed (String.ofList (Chars.trim (root ++ '\x7b' :: (inner ++ ['\x7d'])))) =
      readPieces (rootText root) inner := by
  have hend : Chars.dropEndWhile isBlank (inner ++ ['\x7d']) = inner ++ ['\x7d'] :=
    Chars.dropEndWhile_append_cons (by decide)
  have hcut : Chars.cut? ['\x7b'] (root.dropWhile isBlank ++ '\x7b' :: (inner ++ ['\x7d'])) =
      some (root.dropWhile isBlank, inner ++ ['\x7d']) :=
    Chars.cut?_append (fun hmem => h ((List.dropWhile_sublist isBlank).mem hmem)) _
  have hlast : Chars.cutLast? ['\x7d'] (inner ++ ['\x7d']) = some (inner, []) :=
    Chars.cutLast?_append inner (by simp)
  have hgroup : group (String.ofList (root.dropWhile isBlank ++
      '\x7b' :: (inner ++ ['\x7d']))) = (rootText root, String.ofList inner) := by
    have hopen : "\x7b".toList = ['\x7b'] := rfl
    have hclose : "\x7d".toList = ['\x7d'] := rfl
    simp only [group, Text.cut?, Text.cutLast?, hopen, hclose, String.toList_ofList, hcut, hlast,
      Option.map_some, Option.bind_some, Option.getD_some, rootText, Text.trim,
      Chars.trim_dropWhile]
  rw [Chars.trim_append_cons (by decide), hend, listed, hgroup]
  simp only [clauses_eq, String.toList_ofList, List.map_map, Function.comp_def, readPieces]

/-- Without a semicolon at the end, and without blanks on both sides of it. -/
theorem trim_dropEnd_trim {cs stop : List Char} (hcs : ';' ∉ cs)
    (hstop : stop = [] ∨ stop = [';']) :
    Chars.trim (Chars.dropEndWhile (fun c => c ∈ [';']) (Chars.trim (cs ++ stop))) =
      Chars.trim cs := by
  have hkeep : ∀ {ds : List Char}, ';' ∉ ds →
      Chars.dropEndWhile (fun c => c ∈ [';']) ds = ds := by
    intro ds hds
    rcases List.eq_nil_or_concat ds with rfl | ⟨front, c, rfl⟩
    · rfl
    · have hc : (decide (c ∈ [';'])) = false := by
        rw [List.concat_eq_append] at hds
        simpa using fun heq : c = ';' => hds (by simp [heq])
      rw [List.concat_eq_append, Chars.dropEndWhile_append_cons hc]
      rfl
  rcases hstop with rfl | rfl
  · rw [List.append_nil, hkeep fun hmem => hcs (Chars.mem_of_mem_trim hmem), Chars.trim_trim]
  · have htrim : Chars.trim (cs ++ [';']) = cs.dropWhile isBlank ++ [';'] :=
      Chars.trim_append_cons (by decide)
    rw [htrim, Chars.dropEndWhile_append_of_pos (by simp), hkeep, Chars.trim_dropWhile]
    exact fun hmem => hcs ((List.dropWhile_sublist isBlank).mem hmem)

theorem useImports_of_afterStart? {declaration rest : String}
    (h : Text.afterStart? "use" (Text.trim declaration) = some rest) :
    useImports declaration =
      listed (dropKind (Text.trim (Text.dropEnd [';'] (Text.trim rest)))) := by
  simp only [useImports, h, listed]

/-- **A declaration is read** as its body, without the semicolon and the blanks around it. -/
theorem useImports_text {before body after stop : List Char}
    (hbefore : ∀ c ∈ before, isBlank c = true) (hafter : ∀ c ∈ after, isBlank c = true)
    (hbody : ';' ∉ body) (hstop : stop = [] ∨ stop = [';']) :
    useImports (String.ofList ("use".toList ++ (before ++ (body ++ (after ++ stop))))) =
      listed (String.ofList (kindless (Chars.trim body))) := by
  have hinner : before ++ (body ++ (after ++ stop)) = before ++ (body ++ after) ++ stop := by simp
  have hsemicolon : ';' ∉ before ++ (body ++ after) := by
    have hnot : ∀ {bs : List Char}, (∀ c ∈ bs, isBlank c = true) → ';' ∉ bs :=
      fun h hmem => absurd (h ';' hmem) (by decide)
    simp [hnot hbefore, hbody, hnot hafter]
  rw [hinner]
  generalize hrest : before ++ (body ++ after) = rest at hsemicolon ⊢
  have htrim : Text.trim (String.ofList ("use".toList ++ (rest ++ stop))) =
      String.ofList ("use".toList ++ Chars.dropEndWhile isBlank (rest ++ stop)) := by
    have huse : "use".toList ++ (rest ++ stop) = ['u', 's'] ++ 'e' :: (rest ++ stop) := rfl
    rw [Text.trim, String.toList_ofList (l := "use".toList ++ (rest ++ stop)), huse,
      Chars.trim_append_cons (by decide)]
    rfl
  have hafter? : Text.afterStart? "use" (String.ofList ("use".toList ++
      Chars.dropEndWhile isBlank (rest ++ stop))) =
      some (String.ofList (Chars.dropEndWhile isBlank (rest ++ stop))) := by
    rw [Text.afterStart?, String.toList_ofList
      (l := "use".toList ++ Chars.dropEndWhile isBlank (rest ++ stop)),
      Chars.after?_eq_some_iff.mpr rfl]
    rfl
  have hbody' : Chars.trim rest = Chars.trim body := by
    rw [← hrest, Chars.trim_blank_append hbefore, Chars.trim_append_blank hafter]
  rw [useImports_of_afterStart? (htrim ▸ hafter?)]
  refine congrArg listed (String.toList_inj.mp ?_)
  simp only [toList_dropKind, Text.trim, Text.dropEnd, String.toList_ofList,
    Chars.trim_dropEndWhile, trim_dropEnd_trim hsemicolon hstop, hbody']

end Php

end CodeOutline
