import CodeOutline.Proofs.UseClauses.Reading

/-!
# Reading the clauses of use declarations

A clause that is read as it stands gives its import (`clauseImport_chars`). If it is misread, it is
read without its first word or together with a word before it. In the first case its new name is
lost. In the second case too much is read, since reading drops nothing but blanks and backslashes at
the front: `weight` counts the other characters, and `written` writes an import out as a clause.

So a clause in a list or in braces gives its import exactly if it is clear.
-/

namespace CodeOutline.Php

open Text (isBlank)
open Rust (Loose isLoose isLoose_of_isBlank renamed)
open Chars (StartsSolid)

/-! ## Plain text -/

/-- A character of a name or a path, or a blank. -/
def isPlain (c : Char) : Bool := isNameChar c || isBlank c || c == '\\'

def Plain (cs : List Char) : Prop := ∀ c ∈ cs, isPlain c = true

namespace Plain

variable {cs ds : List Char}

theorem nil : Plain [] := nofun

theorem append (hcs : Plain cs) (hds : Plain ds) : Plain (cs ++ ds) :=
  List.forall_mem_append.mpr ⟨hcs, hds⟩

theorem cons {c : Char} (hc : isPlain c = true) (hcs : Plain cs) : Plain (c :: cs) :=
  List.forall_mem_cons.mpr ⟨hc, hcs⟩

theorem flatMap {α : Type} {f : α → List Char} {as : List α} (h : ∀ a ∈ as, Plain (f a)) :
    Plain (as.flatMap f) := by
  intro c hc
  obtain ⟨a, ha, hc⟩ := List.mem_flatMap.mp hc
  exact h a ha c hc

theorem not_mem (h : Plain cs) {c : Char} (hc : isPlain c = false) : c ∉ cs := by
  intro hmem
  simp [h c hmem] at hc

theorem loose (h : Plain cs) : Loose cs := by
  intro c hc
  have hplain := h c hc
  simp only [isPlain, Bool.or_eq_true, beq_iff_eq] at hplain
  rcases hplain with (hname | hblank) | rfl
  · exact isLoose_of_isNameChar hname
  · exact isLoose_of_isBlank hblank
  · decide

end Plain

theorem Identifier.plain (i : Identifier) : Plain i.chars := by
  intro c hc
  simp [isPlain, isNameChar_of_mem hc]

theorem Blanks.plain (b : Blanks) : Plain b.chars := by
  intro c hc
  simp [isPlain, b.isBlank_of_mem c hc]

theorem plain_backslashes (n : Nat) : Plain (backslashes n) := by
  intro c hc
  rw [List.eq_of_mem_replicate hc]
  decide

theorem plain_stem (names : List Identifier) : Plain (stem names) :=
  Plain.flatMap fun i _ => i.plain.append (Plain.cons (by decide) Plain.nil)

theorem KindWord.plain (k : KindWord) : Plain k.chars := by
  refine Plain.append ?_ (Plain.cons ?_ k.more.plain)
  · intro c hc
    simp [isPlain, ImportKind.isNameChar_of_mem_word hc]
  · simp [isPlain, k.isBlank]

theorem KindWord.chars_append (k : KindWord) (cs : List Char) :
    k.chars ++ cs = k.kind.word ++ k.blank :: (k.more.chars ++ cs) := by
  simp [chars]

theorem plain_kindChars (kind : Option KindWord) : Plain ((kind.map KindWord.chars).getD []) := by
  cases kind with
  | none => exact Plain.nil
  | some k => exact k.plain

namespace Clause

variable (c : Clause)

theorem plain_core : Plain c.core := (plain_stem c.path).append c.name.plain

theorem plain_asChars : Plain c.asChars := by
  rw [asChars]
  cases c.rename with
  | none => exact Plain.nil
  | some i =>
    have has : Plain " as ".toList := List.all_eq_true.mp (by decide)
    exact has.append i.plain

theorem plain_chars : Plain c.chars := c.plain_core.append c.plain_asChars

end Clause

theorem ListClause.plain (c : ListClause) : Plain c.chars :=
  c.before.plain.append (((plain_backslashes c.slashes).append c.clause.plain_chars).append
    c.after.plain)

theorem GroupClause.plain (c : GroupClause) : Plain c.chars :=
  c.before.plain.append (((plain_kindChars c.kind).append c.clause.plain_chars).append
    c.after.plain)

/-! ## Paths -/

theorem toList_pathText (names : List Identifier) :
    (pathText names).toList = ['\\'].intercalate (names.map Identifier.chars) := by
  rw [pathText, String.toList_intercalate, List.map_map]
  simp only [Identifier.text, Function.comp_def, String.toList_ofList]
  rfl

theorem stem_append (xs ys : List Identifier) : stem (xs ++ ys) = stem xs ++ stem ys :=
  List.flatMap_append

theorem stem_eq {names : List Identifier} (hne : names ≠ []) :
    stem names = (pathText names).toList ++ ['\\'] := by
  rw [toList_pathText]
  induction names with
  | nil => exact absurd rfl hne
  | cons i names ih =>
    cases names with
    | nil => simp [stem]
    | cons j names =>
      have hrest := ih (List.cons_ne_nil j names)
      rw [stem, List.flatMap_cons, ← stem, hrest, List.map_cons, List.map_cons, List.map_cons,
        List.intercalate_cons_cons]
      simp only [List.append_assoc]

theorem toList_pathText_concat (names : List Identifier) (i : Identifier) :
    (pathText (names ++ [i])).toList = stem names ++ i.chars := by
  have hstem := stem_append names [i]
  rw [stem_eq (by simp)] at hstem
  exact List.append_cancel_right (hstem.trans (by simp [stem]))

theorem not_isBlank_of_mem_stem (names : List Identifier) :
    ∀ c ∈ stem names, isBlank c = false := by
  intro c hc
  obtain ⟨i, -, hc⟩ := List.mem_flatMap.mp hc
  rcases List.mem_append.mp hc with hc | hc
  · exact i.not_isBlank_of_mem c hc
  · rw [List.mem_singleton.mp hc]
    decide

theorem Identifier.head?_append (i : Identifier) (cs : List Char) :
    ∀ c ∈ (i.chars ++ cs).head?, isNameChar c = true := by
  intro c hc
  rw [List.head?_append_of_ne_nil _ i.ne_nil] at hc
  exact isNameChar_of_mem (List.mem_of_head? hc)

/-- A path begins with a name. -/
theorem head?_stem_append (names : List Identifier) {cs : List Char}
    (h : ∀ c ∈ cs.head?, isNameChar c = true) :
    ∀ c ∈ (stem names ++ cs).head?, isNameChar c = true := by
  cases names with
  | nil => exact h
  | cons i names =>
    rw [stem, List.flatMap_cons, List.append_assoc, List.append_assoc]
    exact i.head?_append _

/-- Without a backslash, there is neither a path nor anything before it. -/
theorem eq_nil_of_slash_not_mem {n : Nat} {names : List Identifier}
    (h : '\\' ∉ backslashes n ++ stem names) : n = 0 ∧ names = [] := by
  simp only [backslashes, stem, List.mem_append, List.mem_replicate, List.mem_flatMap,
    List.mem_singleton, not_or, not_not, or_true, and_true, not_exists] at h
  exact ⟨h.1, List.eq_nil_iff_forall_not_mem.mpr h.2⟩

/-! ## Reading a clause as it stands -/

/-- What a path stands for below `root`. -/
def below (root path : String) : String := if root.isEmpty then path else root ++ "\\" ++ path

/-- The import of what a path leads to. -/
def pathImport (full : String) (asName : Option String) : Import :=
  ((Text.cutLast? "\\" full).map fun parts => .member parts.1 parts.2 asName).getD
    (.whole full asName)

theorem clauseImport_eq (root clause : String) :
    clauseImport root clause =
      pathImport (relativePath (below root (renamed clause).1)) (renamed clause).2 := by
  have hbelow : ∀ path : String, below root path =
      if root.isEmpty then path else s!"{root}\\{path}" := fun _ => rfl
  simp only [clauseImport, renamed, pathImport, hbelow]
  generalize Text.cutLast? "\\" _ = parts
  cases parts <;> rfl

theorem asName_pathImport (full : String) (asName : Option String) :
    (pathImport full asName).asName = asName := by
  rw [pathImport]
  cases Text.cutLast? "\\" full <;> rfl

/-- A path is cut before its last name. -/
theorem pathImport_core (names : List Identifier) (i : Identifier) (asName : Option String) :
    pathImport (String.ofList (stem names ++ i.chars)) asName =
      if names = [] then .whole i.text asName else .member (pathText names) i.text asName := by
  have hslash : '\\' ∉ i.chars := i.not_mem (by decide)
  have hsep : "\\".toList = ['\\'] := rfl
  by_cases hnames : names = []
  · have hcut : Text.cutLast? "\\" i.text = none := by
      rw [Text.cutLast?, Identifier.text, String.toList_ofList (l := i.chars), hsep,
        Chars.cutLast?_eq_none hslash]
      rfl
    subst hnames
    show pathImport i.text asName = _
    rw [pathImport, hcut]
    rfl
  · have hcut : Text.cutLast? "\\" (String.ofList (stem names ++ i.chars)) =
        some (pathText names, i.text) := by
      rw [Text.cutLast?, String.toList_ofList (l := stem names ++ i.chars), stem_eq hnames, hsep,
        List.append_assoc, List.singleton_append, Chars.cutLast?_append _ hslash]
      simp [Identifier.text]
    rw [pathImport, hcut, if_neg hnames]
    rfl

theorem toList_relativePath (s : String) :
    (relativePath s).toList = s.toList.dropWhile (· == '\\') := by
  rw [relativePath, Text.dropStart, String.toList_ofList]
  congr 1
  funext c
  rw [Bool.eq_iff_iff]
  simp

theorem dropWhile_backslashes (n : Nat) (cs : List Char) :
    (backslashes n ++ cs).dropWhile (· == '\\') = cs.dropWhile (· == '\\') := by
  refine List.dropWhile_append_of_pos fun c hc => ?_
  rw [List.eq_of_mem_replicate hc]
  rfl

theorem dropWhile_of_head? {cs : List Char} (h : ∀ c ∈ cs.head?, isNameChar c = true) :
    cs.dropWhile (· == '\\') = cs := by
  cases cs with
  | nil => rfl
  | cons c cs =>
    have hc : c ≠ '\\' := ne_of_isNameChar (h c rfl) (by decide)
    exact List.dropWhile_cons_of_neg (by simpa using hc)

namespace Clause

variable (c : Clause)

theorem not_isBlank_of_mem_core : ∀ d ∈ c.core, isBlank d = false := by
  intro d hd
  rcases List.mem_append.mp hd with hd | hd
  · exact not_isBlank_of_mem_stem c.path d hd
  · exact c.name.not_isBlank_of_mem d hd

theorem head?_core_append (cs : List Char) : ∀ d ∈ (c.core ++ cs).head?, isNameChar d = true := by
  rw [core, List.append_assoc]
  exact head?_stem_append c.path (c.name.head?_append cs)

theorem core_ne_nil : c.core ≠ [] := fun h => c.name.ne_nil (List.append_eq_nil_iff.mp h).2

theorem chars_ne_nil : c.chars ≠ [] := fun h => c.core_ne_nil (List.append_eq_nil_iff.mp h).1

end Clause

theorem not_isBlank_of_mem_backslashes (n : Nat) : ∀ c ∈ backslashes n, isBlank c = false := by
  intro c hc
  rw [List.eq_of_mem_replicate hc]
  decide

theorem Clause.solid_backslashes_append (c : Clause) (n : Nat) :
    ∀ d ∈ backslashes n ++ c.core, isBlank d = false :=
  List.forall_mem_append.mpr ⟨not_isBlank_of_mem_backslashes n, c.not_isBlank_of_mem_core⟩

/-- The new name of a clause is found behind the first ` as `. -/
theorem renamed_chars (n : Nat) (c : Clause) :
    renamed (String.ofList (backslashes n ++ c.chars)) =
      (String.ofList (backslashes n ++ c.core), c.rename.map Identifier.text) := by
  have hsolid := c.solid_backslashes_append n
  have hspace : ' ' ∉ backslashes n ++ c.core := fun h => absurd (hsolid ' ' h) (by decide)
  rw [Clause.chars, Clause.asChars]
  cases c.rename with
  | none =>
    have hcut : Chars.cut? " as ".toList (backslashes n ++ c.core) = none :=
      Chars.cut?_eq_none hspace
    simp only [Option.map_none, Option.getD_none, List.append_nil]
    rw [Rust.renamed_of_cut?_eq_none hcut]
  | some i =>
    have hcut : Chars.cut? " as ".toList
        (backslashes n ++ c.core ++ (" as ".toList ++ i.chars)) =
          some (backslashes n ++ c.core, i.chars) :=
      Chars.cut?_append hspace i.chars
    simp only [Option.map_some, Option.getD_some]
    rw [← List.append_assoc, Rust.renamed_of_cut? hcut, Chars.trim_of_solid hsolid,
      Chars.trim_of_solid i.not_isBlank_of_mem, Identifier.text]

/-- `root` is the path through the names `above`, after some backslashes. -/
def LeadsTo (root : String) (above : List Identifier) : Prop :=
  if above = [] then root = ""
  else ∃ n, root.toList = backslashes n ++ (pathText above).toList

theorem LeadsTo.below_chars {root : String} {above : List Identifier} (h : LeadsTo root above)
    {n : Nat} (hn : above ≠ [] → n = 0) (cs : List Char) :
    ∃ m, (below root (String.ofList (backslashes n ++ cs))).toList =
      backslashes m ++ (stem above ++ cs) := by
  rw [LeadsTo] at h
  by_cases habove : above = []
  · rw [if_pos habove] at h
    subst habove h
    refine ⟨n, ?_⟩
    show (String.ofList (backslashes n ++ cs)).toList = backslashes n ++ cs
    rw [String.toList_ofList]
  · rw [if_neg habove] at h
    obtain ⟨m, hroot⟩ := h
    have hne : root.isEmpty = false := by
      obtain ⟨names, i, rfl⟩ := List.eq_nil_or_concat above |>.resolve_left habove
      rw [List.concat_eq_append, toList_pathText_concat] at hroot
      rw [Bool.eq_false_iff, ne_eq, String.isEmpty_iff, ← String.toList_inj, hroot]
      simp [i.ne_nil]
    refine ⟨m, ?_⟩
    rw [below, hne, hn habove, stem_eq habove]
    simp [hroot, backslashes]

/-- **A clause is read** as the import it makes. -/
theorem clauseImport_chars {root : String} {above : List Identifier} (h : LeadsTo root above)
    {n : Nat} (hn : above ≠ [] → n = 0) (c : Clause) :
    clauseImport root (String.ofList (backslashes n ++ c.chars)) = c.imported above := by
  obtain ⟨m, hbelow⟩ := h.below_chars hn c.core
  have hpath : relativePath (below root (String.ofList (backslashes n ++ c.core))) =
      String.ofList (stem (above ++ c.path) ++ c.name.chars) := by
    rw [← String.toList_inj, toList_relativePath, hbelow, dropWhile_backslashes, Clause.core,
      ← List.append_assoc, ← stem_append, String.toList_ofList]
    have hname := c.name.head?_append []
    rw [List.append_nil] at hname
    exact dropWhile_of_head? (head?_stem_append _ hname)
  rw [clauseImport_eq, renamed_chars, hpath, pathImport_core, Clause.imported]

/-! ## Reading drops nothing -/

/-- The number of characters that are no blanks. -/
def weight (cs : List Char) : Nat := cs.countP fun c => !isBlank c

theorem weight_append (cs ds : List Char) : weight (cs ++ ds) = weight cs + weight ds :=
  List.countP_append

theorem weight_of_blank {cs : List Char} (h : ∀ c ∈ cs, isBlank c = true) : weight cs = 0 := by
  rw [weight, List.countP_eq_zero]
  intro c hc
  simp [h c hc]

theorem weight_trim (cs : List Char) : weight (Chars.trim cs) = weight cs := by
  obtain ⟨before, after, hbefore, hafter, heq⟩ := Chars.exists_trim cs
  conv_rhs => rw [heq]
  rw [weight_append, weight_append, weight_of_blank hbefore, weight_of_blank hafter]
  omega

theorem weight_pos {cs : List Char} {c : Char} (hc : c ∈ cs) (hsolid : isBlank c = false) :
    0 < weight cs := by
  rw [weight, List.countP_pos_iff]
  exact ⟨c, hc, by simp [hsolid]⟩

theorem ImportKind.weight_word_pos (k : ImportKind) : 0 < weight k.word := by
  obtain ⟨d, rest, hword, hname⟩ := k.exists_word_eq_cons
  exact weight_pos (c := d) (by simp [hword]) (not_isBlank_of_isNameChar hname)

/-- A new name as a clause gives it. -/
def asText (asName : Option String) : List Char :=
  (asName.map fun name => " as ".toList ++ name.toList).getD []

/-- An import as a clause. -/
def written (i : Import) : List Char :=
  i.path.toList ++ (i.names.flatMap fun name => '\\' :: name.toList) ++ asText i.asName

theorem written_pathImport (full : String) (asName : Option String) :
    written (pathImport full asName) = full.toList ++ asText asName := by
  rw [pathImport]
  cases hcut : Text.cutLast? "\\" full with
  | none => simp [written, Import.whole]
  | some parts =>
    obtain ⟨path, name⟩ := parts
    obtain ⟨⟨before, after⟩, hchars, heq⟩ := Option.map_eq_some_iff.mp hcut
    obtain ⟨rfl, rfl⟩ := Prod.mk.inj heq
    rw [Chars.eq_append_of_cutLast? hchars]
    simp [written, Import.member]

theorem weight_renamed (cs : List Char) :
    weight (renamed (String.ofList cs)).1.toList + weight (asText (renamed (String.ofList cs)).2) =
      weight cs := by
  cases hcut : Chars.cut? " as ".toList cs with
  | none =>
    rw [Rust.renamed_of_cut?_eq_none hcut]
    simp [asText, weight]
  | some parts =>
    obtain ⟨path, name⟩ := parts
    rw [Rust.renamed_of_cut? hcut]
    conv_rhs => rw [Chars.eq_append_of_cut? hcut]
    simp only [asText, Option.map_some, Option.getD_some, String.toList_ofList, weight_append,
      weight_trim]
    omega

/-- What a clause begins with is what its path begins with. -/
theorem head?_renamed {cs : List Char} {c : Char} (hc : cs.head? = some c)
    (hsolid : isBlank c = false) : (renamed (String.ofList cs)).1.toList.head? = some c := by
  cases hcut : Chars.cut? " as ".toList cs with
  | none =>
    rw [Rust.renamed_of_cut?_eq_none hcut, String.toList_ofList]
    exact hc
  | some parts =>
    obtain ⟨path, name⟩ := parts
    rw [Rust.renamed_of_cut? hcut, String.toList_ofList]
    have hcs := Chars.eq_append_of_cut? hcut
    cases path with
    | nil =>
      rw [hcs] at hc
      obtain rfl := Option.some.inj hc
      exact absurd hsolid (by decide)
    | cons d path =>
      rw [hcs] at hc
      obtain rfl := Option.some.inj hc
      rw [← List.nil_append (d :: path), Chars.trim_append_cons hsolid]
      rfl

theorem weight_written_clauseImport (root : String) {cs front : List Char}
    (h : (relativePath (below root (renamed (String.ofList cs)).1)).toList =
      front ++ (renamed (String.ofList cs)).1.toList) :
    weight (written (clauseImport root (String.ofList cs))) = weight front + weight cs := by
  rw [clauseImport_eq, written_pathImport, h, weight_append, weight_append, Nat.add_assoc,
    weight_renamed]

/-- **Nothing is lost** of a clause below a path. -/
theorem LeadsTo.weight_written {root : String} {above : List Identifier} (h : LeadsTo root above)
    {c : Char} {cs : List Char} (hc : cs.head? = some c) (hname : isNameChar c = true) :
    weight (written (clauseImport root (String.ofList cs))) =
      weight (stem above) + weight cs := by
  refine weight_written_clauseImport root ?_
  generalize hpath : (renamed (String.ofList cs)).1 = path
  have hhead : path.toList.head? = some c :=
    hpath ▸ head?_renamed hc (not_isBlank_of_isNameChar hname)
  obtain ⟨m, hbelow⟩ := h.below_chars (n := 0) (fun _ => rfl) path.toList
  rw [backslashes, List.replicate_zero, List.nil_append, String.ofList_toList] at hbelow
  rw [toList_relativePath, hbelow, dropWhile_backslashes, dropWhile_of_head?]
  refine head?_stem_append above fun d hd => ?_
  rw [hhead] at hd
  exact Option.some.inj hd ▸ hname

theorem leadsTo_pathText (above : List Identifier) : LeadsTo (pathText above) above := by
  rw [LeadsTo]
  split
  · next h => rw [h]; rfl
  · exact ⟨0, rfl⟩

theorem Clause.exists_head? (c : Clause) : ∃ d, c.chars.head? = some d ∧ isNameChar d = true := by
  cases hhead : c.chars.head? with
  | none => exact absurd (List.head?_eq_none_iff.mp hhead) c.chars_ne_nil
  | some d => exact ⟨d, rfl, c.head?_core_append c.asChars d hhead⟩

theorem weight_written_imported (above : List Identifier) (c : Clause) :
    weight (written (c.imported above)) = weight (stem above) + weight c.chars := by
  obtain ⟨d, hd, hname⟩ := c.exists_head?
  have hread := clauseImport_chars (leadsTo_pathText above) (n := 0) (fun _ => rfl) c
  rw [← hread]
  exact (leadsTo_pathText above).weight_written hd hname

/-- Below a path that begins with a name, nothing is lost either. -/
theorem weight_written_below {root : String} {c : Char} (hc : root.toList.head? = some c)
    (hname : isNameChar c = true) (cs : List Char) :
    weight (written (clauseImport root (String.ofList cs))) =
      weight root.toList + 1 + weight cs := by
  have hne : root.isEmpty = false := by
    rw [Bool.eq_false_iff, ne_eq, String.isEmpty_iff]
    rintro rfl
    cases hc
  have hpath : ∀ path : String, (relativePath (below root path)).toList =
      root.toList ++ ['\\'] ++ path.toList := by
    intro path
    have hbelow : (below root path).toList = root.toList ++ ['\\'] ++ path.toList := by
      simp [below, hne]
    rw [toList_relativePath, hbelow, dropWhile_of_head?]
    intro d hd
    rw [List.append_assoc, List.head?_append, hc] at hd
    exact Option.some.inj hd ▸ hname
  rw [weight_written_clauseImport root (hpath _), weight_append]
  rfl

/-! ## Misread clauses -/

/-- What is read in place of a clause: the new name only, or the clause with something before it. -/
inductive Misread (c : Clause) : List Char → Prop
  | short {i : Identifier} : c.rename = some i → Misread c ("as ".toList ++ i.chars)
  | long (k : ImportKind) (cs : List Char) : Misread c (k.word ++ (cs ++ c.chars))

namespace Misread

variable {c : Clause} {cs : List Char}

theorem ne_nil (h : Misread c cs) : cs ≠ [] := by
  cases h with
  | short _ => simp
  | long k _ => simp [k.word_ne_nil]

/-- There is no new name where only that is read. -/
theorem renamed_short (i : Identifier) :
    (renamed (String.ofList ("as ".toList ++ i.chars))).2 = none := by
  have hcut : Chars.cut? " as ".toList ("as ".toList ++ i.chars) = none := by
    cases hcut : Chars.cut? " as ".toList ("as ".toList ++ i.chars) with
    | none => rfl
    | some parts =>
      -- one space would have to be two
      have hcount := congrArg (List.count ' ') (Chars.eq_append_of_cut? hcut)
      have hname : i.chars.count ' ' = 0 := List.count_eq_zero.mpr (i.not_mem (by decide))
      have has : "as ".toList.count ' ' = 1 := by decide
      have hsep : " as ".toList.count ' ' = 2 := by decide
      simp only [List.count_append, hname, has, hsep] at hcount
      omega
  rw [Rust.renamed_of_cut?_eq_none hcut]

/-- Where the new name alone is read, it is lost. -/
theorem asName_ne {i : Identifier} (hrename : c.rename = some i) (root : String)
    (above : List Identifier) :
    (clauseImport root (String.ofList ("as ".toList ++ i.chars))).asName ≠
      (c.imported above).asName := by
  have hexpected : (c.imported above).asName = some i.text := by
    rw [Clause.imported, hrename]
    split <;> rfl
  rw [clauseImport_eq, asName_pathImport, renamed_short, hexpected]
  simp

theorem weight_long (k : ImportKind) (cs : List Char) (c : Clause) :
    weight c.chars < weight (k.word ++ (cs ++ c.chars)) := by
  have hpos := k.weight_word_pos
  rw [weight_append, weight_append]
  omega

/-- **A misread clause** gives another import. -/
theorem clauseImport_ne (h : Misread c cs) {root : String} {above : List Identifier}
    (hroot : LeadsTo root above) :
    clauseImport root (String.ofList cs) ≠ c.imported above := by
  intro heq
  cases h with
  | short hrename => exact asName_ne hrename root above (congrArg Import.asName heq)
  | long k front =>
    obtain ⟨d, rest, hword, hname⟩ := k.exists_word_eq_cons
    have hhead : (k.word ++ (front ++ c.chars)).head? = some d := by simp [hword]
    have hweight := congrArg (fun i => weight (written i)) heq
    simp only [hroot.weight_written hhead hname, weight_written_imported] at hweight
    have hlong := weight_long k front c
    omega

/-- Below a path that is too long, no clause gives its import. -/
theorem clauseImport_ne_of_weight (h : cs = c.chars ∨ Misread c cs) {root : String}
    {above : List Identifier} {d : Char} (hd : root.toList.head? = some d)
    (hname : isNameChar d = true) (hlong : weight (stem above) < weight root.toList + 1) :
    clauseImport root (String.ofList cs) ≠ c.imported above := by
  intro heq
  have hweight := congrArg (fun i => weight (written i)) heq
  simp only [weight_written_below hd hname, weight_written_imported] at hweight
  rcases h with rfl | h
  · omega
  · cases h with
    | short hrename => exact asName_ne hrename root above (congrArg Import.asName heq)
    | long k front =>
      have hmore := weight_long k front c
      omega

end Misread

/-! ## Clauses in a list and in braces -/

namespace Clause

variable (c : Clause)

/-- A clause ends with a name. -/
theorem exists_eq_append : ∃ (front : List Char) (i : Identifier), c.chars = front ++ i.chars := by
  rw [chars, asChars]
  cases c.rename with
  | none => exact ⟨stem c.path, c.name, by simp [core]⟩
  | some i => exact ⟨c.core ++ " as ".toList, i, by simp⟩

theorem trim_append_chars (cs : List Char) (h : StartsSolid (cs ++ c.chars)) :
    Chars.trim (cs ++ c.chars) = cs ++ c.chars := by
  obtain ⟨front, i, hchars⟩ := c.exists_eq_append
  rw [hchars, ← List.append_assoc] at h ⊢
  exact Chars.trim_append_solid h i.ne_nil i.not_isBlank_of_mem

theorem startsSolid_chars_append (cs : List Char) : StartsSolid (c.chars ++ cs) := by
  rw [chars, List.append_assoc]
  exact fun d hd => not_isBlank_of_isNameChar (c.head?_core_append _ d hd)

theorem trim_chars : Chars.trim c.chars = c.chars := by
  have hsolid := c.startsSolid_chars_append []
  rw [List.append_nil] at hsolid
  exact c.trim_append_chars [] hsolid

/-- Backslashes and a path are the word for a kind only if the word stands alone. -/
theorem eq_word_iff {c : Clause} {n : Nat} :
    (∃ k : ImportKind, backslashes n ++ c.core = k.word) ↔ n = 0 ∧ c.IsWord := by
  constructor
  · rintro ⟨k, hword⟩
    have hslash : '\\' ∉ backslashes n ++ c.core := hword ▸ k.not_mem_word (by decide)
    rw [core, ← List.append_assoc, List.mem_append, not_or] at hslash
    obtain ⟨hn, hpath⟩ := eq_nil_of_slash_not_mem hslash.1
    refine ⟨hn, hpath, k, ?_⟩
    simpa [hn, hpath, core, stem, backslashes] using hword
  · rintro ⟨rfl, hpath, k, hname⟩
    exact ⟨k, by simp [hpath, core, stem, backslashes, hname]⟩

theorem head?_asChars {c : Clause} : c.asChars.head? = some ' ' ↔ c.rename ≠ none := by
  rw [asChars]
  cases c.rename with
  | none => simp
  | some i => simp

theorem marked_iff {c : Clause} {n : Nat} :
    Marked (backslashes n ++ c.chars) ↔ n = 0 ∧ ¬ c.Clear := by
  have hhead : ∀ d ∈ c.asChars.head?, isNameChar d = false := by
    intro d hd
    rw [asChars] at hd
    cases hrename : c.rename with
    | none => simp [hrename] at hd
    | some i =>
      simp [hrename] at hd
      exact hd ▸ by decide
  rw [chars, ← List.append_assoc, marked_append_iff (c.solid_backslashes_append n) hhead,
    eq_word_iff, head?_asChars, Clear,
    Classical.not_imp, and_assoc]

/-- A clause that looks like a word for a kind and a clause behind it is misread. -/
theorem misread_of_not_clear {c : Clause} (h : ¬ c.Clear) : Misread c (kindless c.chars) := by
  rw [Clear, Classical.not_imp] at h
  obtain ⟨⟨hpath, k, hname⟩, hrename⟩ := h
  obtain ⟨i, hi⟩ := Option.ne_none_iff_exists'.mp hrename
  have hchars : c.chars = k.word ++ ' ' :: ("as ".toList ++ i.chars) := by
    simp [chars, core, asChars, stem, hpath, hname, hi]
  have hread : kindless c.chars = "as ".toList ++ i.chars := by
    rw [hchars, kindless_word]
    rfl
  exact hread ▸ .short hi

end Clause

theorem leadsTo_nil : LeadsTo "" [] := by simp [LeadsTo]

namespace ListClause

variable (c : ListClause)

/-- What is read of the clause. -/
def read : List Char := kindless (Chars.trim c.chars)

theorem startsSolid_inner_append (cs : List Char) : StartsSolid (c.inner ++ cs) := by
  rw [inner, List.append_assoc]
  cases hn : c.slashes with
  | zero => exact c.clause.startsSolid_chars_append cs
  | succ n => exact Chars.startsSolid_cons (by decide) _

theorem trim_chars : Chars.trim c.chars = c.inner := by
  have hsolid := c.startsSolid_inner_append []
  rw [List.append_nil] at hsolid
  rw [chars, Chars.trim_blank_append c.before.isBlank_of_mem,
    Chars.trim_append_blank c.after.isBlank_of_mem]
  exact c.clause.trim_append_chars (backslashes c.slashes) hsolid

theorem read_of_clear (h : c.Clear) : c.read = c.inner := by
  rw [read, trim_chars]
  refine kindless_of_not_marked fun hmarked => ?_
  obtain ⟨hn, hnot⟩ := Clause.marked_iff.mp hmarked
  exact hnot (h hn)

theorem misread_of_not_clear (h : ¬ c.Clear) : Misread c.clause c.read := by
  rw [Clear, Classical.not_imp] at h
  have hinner : c.inner = c.clause.chars := by
    rw [inner, h.1]
    rfl
  rw [read, trim_chars, hinner]
  exact Clause.misread_of_not_clear h.2

theorem read_ne_nil : c.read ≠ [] := by
  by_cases h : c.Clear
  · rw [c.read_of_clear h, inner]
    simp [c.clause.chars_ne_nil]
  · exact (c.misread_of_not_clear h).ne_nil

/-- **A clause of a list gives its import** exactly if it is clear. -/
theorem clauseImport_read_iff :
    clauseImport "" (String.ofList c.read) = c.clause.imported [] ↔ c.Clear := by
  by_cases h : c.Clear
  · rw [c.read_of_clear h, inner]
    simp only [h, iff_true]
    exact clauseImport_chars leadsTo_nil (fun hne => absurd rfl hne) c.clause
  · simp only [h, iff_false]
    exact (c.misread_of_not_clear h).clauseImport_ne leadsTo_nil

end ListClause

namespace GroupClause

variable (c : GroupClause)

/-- What is read of the clause. -/
def read : List Char := kindless (Chars.trim c.chars)

theorem startsSolid_inner : StartsSolid c.inner := by
  rw [inner]
  cases c.kind with
  | none =>
    have hsolid := c.clause.startsSolid_chars_append []
    rwa [List.append_nil] at hsolid
  | some k =>
    show StartsSolid (k.chars ++ c.clause.chars)
    rw [k.chars_append]
    exact k.kind.startsSolid_word_append _

theorem trim_chars : Chars.trim c.chars = c.inner := by
  rw [chars, Chars.trim_blank_append c.before.isBlank_of_mem,
    Chars.trim_append_blank c.after.isBlank_of_mem]
  exact c.clause.trim_append_chars _ c.startsSolid_inner

theorem inner_of_none (h : c.kind = none) : c.inner = c.clause.chars := by
  rw [inner, h]
  rfl

theorem inner_of_some {k : KindWord} (h : c.kind = some k) :
    c.inner = k.kind.word ++ k.blank :: (k.more.chars ++ c.clause.chars) := by
  rw [inner, h]
  exact k.chars_append _

/-- The text of a clause is trimmed already, so trimming it may be put in. -/
theorem read_eq : c.read = kindless (Chars.trim c.inner) := by
  rw [read, trim_chars, inner, c.clause.trim_append_chars _ c.startsSolid_inner]

theorem read_of_clear (h : c.Clear) : c.read = c.clause.chars := by
  rw [read_eq]
  rw [Clear] at h
  cases hkind : c.kind with
  | none =>
    rw [hkind] at h
    rw [c.inner_of_none hkind, Clause.trim_chars]
    refine kindless_of_not_marked fun hmarked => ?_
    have hclause : Marked (backslashes 0 ++ c.clause.chars) := hmarked
    exact (Clause.marked_iff.mp hclause).2 h
  | some k =>
    rw [hkind] at h
    have hblank : k.blank = ' ' := h
    obtain ⟨d, hd, hname⟩ := c.clause.exists_head?
    have hsolid : ∃ d ∈ k.more.chars ++ c.clause.chars, isBlank d = false :=
      ⟨d, List.mem_append_right _ (List.mem_of_head? hd), not_isBlank_of_isNameChar hname⟩
    rw [c.inner_of_some hkind, hblank, kindless_trim_word k.kind hsolid,
      Chars.trim_blank_append k.more.isBlank_of_mem, Clause.trim_chars]

theorem misread_of_not_clear (h : ¬ c.Clear) : Misread c.clause c.read := by
  rw [Clear] at h
  cases hkind : c.kind with
  | none =>
    rw [hkind] at h
    rw [read, trim_chars, c.inner_of_none hkind]
    exact Clause.misread_of_not_clear h
  | some k =>
    rw [hkind] at h
    have hread : c.read = c.inner := by
      rw [read_eq, c.inner_of_some hkind, kindless_trim_unspaced k.kind k.isBlank h,
        ← c.inner_of_some hkind]
      exact c.clause.trim_append_chars _ c.startsSolid_inner
    rw [hread, c.inner_of_some hkind, ← List.cons_append]
    exact .long k.kind _

theorem read_ne_nil : c.read ≠ [] := by
  by_cases h : c.Clear
  · rw [c.read_of_clear h]
    exact c.clause.chars_ne_nil
  · exact (c.misread_of_not_clear h).ne_nil

/-- **A clause in braces gives its import** exactly if it is clear. -/
theorem clauseImport_read_iff {root : String} {above : List Identifier}
    (hroot : LeadsTo root above) :
    clauseImport root (String.ofList c.read) = c.clause.imported above ↔ c.Clear := by
  by_cases h : c.Clear
  · rw [c.read_of_clear h]
    simp only [h, iff_true]
    exact clauseImport_chars hroot (n := 0) (fun _ => rfl) c.clause
  · simp only [h, iff_false]
    exact (c.misread_of_not_clear h).clauseImport_ne hroot

end GroupClause

end CodeOutline.Php
