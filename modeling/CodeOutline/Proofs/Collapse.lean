import CodeOutline.Proofs.Paths
import CodeOutline.Proofs.Targets

/-!
# Collapsing blanks

A text is put on one line by joining its words with single spaces. The joined text can be told
without words: `narrow` turns every run of blanks into one space, and then blanks are trimmed off
both ends (`toList_collapse`).

Narrowing goes well with putting texts together: it can be done on both sides of any character that
is no blank (`narrow_append_cons`). So it goes through braces, commas and names without a change.
-/

namespace CodeOutline.Chars

open Text (isBlank)

variable {cs ds : List Char} {c : Char}

/-! ## Both ends -/

theorem trim_blank_append (hblank : ∀ c ∈ cs, isBlank c = true) : trim (cs ++ ds) = trim ds := by
  rw [trim, List.dropWhile_append_of_pos hblank, trim]

theorem dropEndWhile_append_of_pos {p : Char → Bool} (hp : ∀ c ∈ ds, p c = true) :
    dropEndWhile p (cs ++ ds) = dropEndWhile p cs := by
  have hreverse : ∀ c ∈ ds.reverse, p c = true := by
    intro c hc
    exact hp c (List.mem_reverse.mp hc)
  rw [dropEndWhile, List.reverse_append, List.dropWhile_append_of_pos hreverse, dropEndWhile]

theorem dropEndWhile_eq_nil {p : Char → Bool} (hp : ∀ c ∈ cs, p c = true) :
    dropEndWhile p cs = [] := by
  rw [← List.nil_append cs, dropEndWhile_append_of_pos hp]
  rfl

theorem trim_eq_nil (hblank : ∀ c ∈ cs, isBlank c = true) : trim cs = [] := by
  rw [← List.append_nil cs, trim_blank_append hblank]
  rfl

/-- What stands before a character that is no blank is dropped as if it stood alone. -/
theorem dropWhile_append_cons {p : Char → Bool} (hc : p c = false) :
    (cs ++ c :: ds).dropWhile p = cs.dropWhile p ++ c :: ds := by
  rw [List.dropWhile_append]
  split
  · next hempty =>
    rw [List.isEmpty_iff.mp hempty, List.dropWhile_cons_of_neg (by simp [hc]), List.nil_append]
  · rfl

theorem dropEndWhile_append_cons {p : Char → Bool} (hc : p c = false) :
    dropEndWhile p (cs ++ c :: ds) = cs ++ c :: dropEndWhile p ds := by
  have hreverse : (cs ++ c :: ds).reverse = ds.reverse ++ c :: cs.reverse := by simp
  rw [dropEndWhile, hreverse, dropWhile_append_cons hc]
  simp [dropEndWhile]

theorem dropEndWhile_cons_of_neg {p : Char → Bool} (hc : p c = false) :
    dropEndWhile p (c :: cs) = c :: dropEndWhile p cs := by
  rw [← List.nil_append (c :: cs), dropEndWhile_append_cons hc, List.nil_append]

theorem trim_append_cons (hc : isBlank c = false) :
    trim (cs ++ c :: ds) = cs.dropWhile isBlank ++ c :: dropEndWhile isBlank ds := by
  rw [trim, dropWhile_append_cons hc, dropEndWhile_append_cons hc]

theorem trim_append_blank (hblank : ∀ c ∈ ds, isBlank c = true) : trim (cs ++ ds) = trim cs := by
  by_cases hall : ∀ c ∈ cs, isBlank c = true
  · rw [trim_blank_append hall, trim_eq_nil hall, trim_eq_nil hblank]
  · simp only [not_forall, Bool.not_eq_true] at hall
    obtain ⟨c, hmem, hc⟩ := hall
    obtain ⟨front, back, rfl⟩ := List.append_of_mem hmem
    rw [List.append_assoc, List.cons_append, trim_append_cons hc, trim_append_cons hc,
      dropEndWhile_append_of_pos hblank]

theorem trim_dropWhile (cs : List Char) : trim (cs.dropWhile isBlank) = trim cs := by
  conv_rhs => rw [← List.takeWhile_append_dropWhile (p := isBlank) (l := cs)]
  rw [trim_blank_append fun c hc => List.mem_takeWhile_imp hc]

theorem trim_dropEndWhile (cs : List Char) : trim (dropEndWhile isBlank cs) = trim cs := by
  have hsplit : cs = dropEndWhile isBlank cs ++ (cs.reverse.takeWhile isBlank).reverse := by
    rw [dropEndWhile, ← List.reverse_append, List.takeWhile_append_dropWhile, List.reverse_reverse]
  conv_rhs => rw [hsplit]
  rw [trim_append_blank fun c hc => List.mem_takeWhile_imp (List.mem_reverse.mp hc)]

/-- Trimming takes blanks off both ends and nothing else. -/
theorem exists_trim (cs : List Char) : ∃ before after, (∀ c ∈ before, isBlank c = true) ∧
    (∀ c ∈ after, isBlank c = true) ∧ cs = before ++ trim cs ++ after := by
  refine ⟨cs.takeWhile isBlank, ((cs.dropWhile isBlank).reverse.takeWhile isBlank).reverse,
    fun c hc => List.mem_takeWhile_imp hc,
    fun c hc => List.mem_takeWhile_imp (List.mem_reverse.mp hc), ?_⟩
  rw [trim, dropEndWhile, List.append_assoc, ← List.reverse_append,
    List.takeWhile_append_dropWhile, List.reverse_reverse, List.takeWhile_append_dropWhile]

theorem getLast?_trim (h : (trim cs).getLast? = some c) : isBlank c = false :=
  getLast?_dropEndWhile h

theorem trim_trim (cs : List Char) : trim (trim cs) = trim cs :=
  trim_eq_self (fun _ hc => head?_trim hc) fun _ hc => getLast?_trim hc

/-! ## Runs of blanks -/

/-- Each run of blanks as one space. The flag says that a blank has just been passed. -/
def narrowFrom (afterBlank : Bool) : List Char → List Char
  | [] => []
  | c :: cs =>
    if isBlank c then
      if afterBlank then narrowFrom true cs else ' ' :: narrowFrom true cs
    else c :: narrowFrom false cs

def narrow (cs : List Char) : List Char := narrowFrom false cs

theorem narrowFrom_append_cons (hc : isBlank c = false) (afterBlank : Bool) (cs ds : List Char) :
    narrowFrom afterBlank (cs ++ c :: ds) = narrowFrom afterBlank cs ++ c :: narrow ds := by
  induction cs generalizing afterBlank with
  | nil => simp [narrowFrom, narrow, hc]
  | cons d cs ih =>
    rw [List.cons_append, narrowFrom, narrowFrom]
    split
    · split
      · exact ih true
      · rw [ih true, List.cons_append]
    · rw [ih false, List.cons_append]

/-- **Narrowing** goes past any character that is no blank. -/
theorem narrow_append_cons (hc : isBlank c = false) (cs ds : List Char) :
    narrow (cs ++ c :: ds) = narrow cs ++ c :: narrow ds :=
  narrowFrom_append_cons hc false cs ds

theorem narrow_cons (hc : isBlank c = false) (cs : List Char) :
    narrow (c :: cs) = c :: narrow cs :=
  narrow_append_cons hc [] cs

/-- The text does not begin with a blank. -/
def StartsSolid (cs : List Char) : Prop := ∀ c ∈ cs.head?, isBlank c = false

theorem startsSolid_nil : StartsSolid [] := nofun

theorem startsSolid_cons (hc : isBlank c = false) (cs : List Char) : StartsSolid (c :: cs) := by
  intro d hd
  rwa [← Option.some.inj hd]

theorem startsSolid_of_solid (h : ∀ c ∈ cs, isBlank c = false) : StartsSolid cs :=
  fun c hc => h c (List.mem_of_head? hc)

/-- Text that begins with no blank and ends with a solid piece is left as it is by trimming. -/
theorem trim_append_solid (hfirst : StartsSolid (cs ++ ds)) (hne : ds ≠ [])
    (hds : ∀ c ∈ ds, isBlank c = false) : trim (cs ++ ds) = cs ++ ds := by
  refine trim_eq_self hfirst fun c hc => hds c ?_
  rw [List.getLast?_append_of_ne_nil cs hne] at hc
  exact List.mem_of_getLast? hc

theorem trim_of_solid (h : ∀ c ∈ cs, isBlank c = false) : trim cs = cs :=
  trim_eq_self (fun c hc => h c (List.mem_of_head? hc))
    fun c hc => h c (List.mem_of_getLast? hc)

theorem StartsSolid.dropWhile_eq (h : StartsSolid cs) : cs.dropWhile isBlank = cs := by
  cases cs with
  | nil => rfl
  | cons c cs => exact List.dropWhile_cons_of_neg (by simp [h c rfl])

/-- Narrowing can be done on both sides of a place that a blank does not follow. -/
theorem StartsSolid.narrow_append (h : StartsSolid ds) (cs : List Char) :
    narrow (cs ++ ds) = narrow cs ++ narrow ds := by
  cases ds with
  | nil => simp [narrow, narrowFrom]
  | cons d ds => rw [narrow_append_cons (h d rfl), narrow_cons (h d rfl)]

theorem StartsSolid.head?_narrow (h : StartsSolid cs) : (Chars.narrow cs).head? = cs.head? := by
  cases cs with
  | nil => rfl
  | cons c cs => rw [narrow_cons (h c rfl), List.head?_cons, List.head?_cons]

theorem StartsSolid.narrow (h : StartsSolid cs) : StartsSolid (narrow cs) := by
  cases cs with
  | nil => exact h
  | cons c cs =>
    rw [narrow_cons (h c rfl)]
    exact startsSolid_cons (h c rfl) _

theorem narrow_solid_append (h : ∀ c ∈ cs, isBlank c = false) (ds : List Char) :
    narrow (cs ++ ds) = cs ++ narrow ds := by
  induction cs with
  | nil => rfl
  | cons c cs ih =>
    rw [List.cons_append, narrow_cons (h c List.mem_cons_self),
      ih fun d hd => h d (List.mem_cons_of_mem c hd), List.cons_append]

theorem narrow_of_solid (h : ∀ c ∈ cs, isBlank c = false) : narrow cs = cs := by
  have hall := narrow_solid_append h []
  have hnil : narrow [] = [] := rfl
  rwa [List.append_nil, hnil, List.append_nil] at hall

theorem narrowFrom_true_of_blank (h : ∀ c ∈ cs, isBlank c = true) : narrowFrom true cs = [] := by
  induction cs with
  | nil => rfl
  | cons c cs ih =>
    rw [narrowFrom, if_pos (h c List.mem_cons_self), if_pos rfl]
    exact ih fun d hd => h d (List.mem_cons_of_mem c hd)

/-- Blanks come to one space, if there are any. -/
theorem narrow_of_blank (h : ∀ c ∈ cs, isBlank c = true) (hne : cs ≠ []) : narrow cs = [' '] := by
  cases cs with
  | nil => exact absurd rfl hne
  | cons c cs =>
    rw [narrow, narrowFrom, if_pos (h c List.mem_cons_self), if_neg Bool.false_ne_true,
      narrowFrom_true_of_blank fun d hd => h d (List.mem_cons_of_mem c hd)]

theorem mem_narrowFrom {afterBlank : Bool} (h : c ∈ narrowFrom afterBlank cs) :
    c = ' ' ∨ c ∈ cs := by
  induction cs generalizing afterBlank with
  | nil => cases h
  | cons d cs ih =>
    have hrest : ∀ {afterBlank : Bool}, c ∈ narrowFrom afterBlank cs → c = ' ' ∨ c ∈ d :: cs :=
      fun h => (ih h).imp_right (List.mem_cons_of_mem d)
    rw [narrowFrom] at h
    split_ifs at h
    · exact hrest h
    · rcases List.mem_cons.mp h with hspace | h
      · exact .inl hspace
      · exact hrest h
    · rcases List.mem_cons.mp h with hd | h
      · exact .inr (hd ▸ List.mem_cons_self)
      · exact hrest h

theorem mem_narrow_of_mem (hc : isBlank c = false) (h : c ∈ cs) : c ∈ narrow cs := by
  obtain ⟨front, back, rfl⟩ := List.append_of_mem h
  rw [narrow_append_cons hc]
  exact List.mem_append_right _ List.mem_cons_self

theorem isBlank_of_mem_narrow (h : ∀ c ∈ cs, isBlank c = true) :
    ∀ c ∈ narrow cs, isBlank c = true := by
  intro c hc
  rcases mem_narrowFrom hc with rfl | hc
  · rfl
  · exact h c hc

theorem narrow_intercalate (hc : isBlank c = false) (parts : List (List Char)) :
    narrow ([c].intercalate parts) = [c].intercalate (parts.map narrow) := by
  induction parts with
  | nil => rfl
  | cons p parts ih =>
    cases parts with
    | nil => simp
    | cons q parts =>
      rw [List.intercalate_cons_cons, List.append_assoc, List.singleton_append,
        narrow_append_cons hc, ih, List.map_cons, List.map_cons, List.map_cons,
        List.intercalate_cons_cons, List.append_assoc, List.singleton_append]

/-! ## Words -/

theorem ne_nil_of_mem_wordsFrom {word w : List Char} (h : w ∈ wordsFrom word cs) : w ≠ [] := by
  induction cs generalizing word with
  | nil =>
    rw [wordsFrom] at h
    split_ifs at h with hempty
    · cases h
    · rw [List.mem_singleton.mp h]
      simpa using hempty
  | cons d cs ih =>
    rw [wordsFrom] at h
    split_ifs at h with hblank hempty
    · exact ih h
    · rcases List.mem_cons.mp h with rfl | h
      · simpa using hempty
      · exact ih h
    · exact ih h

/-- A blank at the front stays only if something follows it. -/
theorem dropEndWhile_blank_cons (hc : isBlank c = true) (cs : List Char) :
    dropEndWhile isBlank (c :: cs) =
      if dropEndWhile isBlank cs = [] then [] else c :: dropEndWhile isBlank cs := by
  by_cases hall : ∀ d ∈ cs, isBlank d = true
  · rw [if_pos (dropEndWhile_eq_nil hall)]
    refine dropEndWhile_eq_nil fun d hd => ?_
    rcases List.mem_cons.mp hd with rfl | hd
    · exact hc
    · exact hall d hd
  · simp only [not_forall, Bool.not_eq_true] at hall
    obtain ⟨d, hmem, hd⟩ := hall
    obtain ⟨front, back, rfl⟩ := List.append_of_mem hmem
    rw [← List.cons_append, dropEndWhile_append_cons hd, dropEndWhile_append_cons hd]
    simp

/-- The words joined by spaces, where a word has or has not begun. -/
theorem intercalate_wordsFrom (cs : List Char) :
    (∀ c word, isBlank c = false → [' '].intercalate (wordsFrom (c :: word) cs) =
      (c :: word).reverse ++ dropEndWhile isBlank (narrowFrom false cs)) ∧
    [' '].intercalate (wordsFrom [] cs) = dropEndWhile isBlank (narrowFrom true cs) := by
  induction cs with
  | nil => exact ⟨fun c word _ => by simp [wordsFrom, narrowFrom, dropEndWhile], rfl⟩
  | cons d cs ih =>
    obtain ⟨hword, hnone⟩ := ih
    by_cases hd : isBlank d = true
    · refine ⟨fun c word _ => ?_, by simpa [wordsFrom, narrowFrom, hd] using hnone⟩
      have hends : wordsFrom (c :: word) (d :: cs) = (c :: word).reverse :: wordsFrom [] cs := by
        simp [wordsFrom, hd]
      have hspace : narrowFrom false (d :: cs) = ' ' :: narrowFrom true cs := by
        simp [narrowFrom, hd]
      rw [hends, hspace, dropEndWhile_blank_cons rfl, ← hnone]
      cases hwords : wordsFrom [] cs with
      | nil => simp
      | cons w ws =>
        have hne : [' '].intercalate (w :: ws) ≠ [] := by
          have hw : w ≠ [] := ne_nil_of_mem_wordsFrom (hwords ▸ List.mem_cons_self)
          cases ws with
          | nil => simpa using hw
          | cons v ws => simp [List.intercalate_cons_cons]
        rw [if_neg hne, List.intercalate_cons_cons, List.append_assoc, List.singleton_append]
    · rw [Bool.not_eq_true] at hd
      have hgrows : ∀ word, wordsFrom word (d :: cs) = wordsFrom (d :: word) cs := by
        intro word
        simp [wordsFrom, hd]
      have hkept : ∀ afterBlank, dropEndWhile isBlank (narrowFrom afterBlank (d :: cs)) =
          d :: dropEndWhile isBlank (narrowFrom false cs) := by
        intro afterBlank
        rw [narrowFrom, if_neg (by simp [hd])]
        exact dropEndWhile_cons_of_neg hd
      refine ⟨fun c word _ => ?_, ?_⟩
      · rw [hgrows, hword d _ hd, hkept]
        simp
      · rw [hgrows, hword d _ hd, hkept]
        rfl

theorem dropWhile_narrowFrom (afterBlank : Bool) (cs : List Char) :
    (narrowFrom afterBlank cs).dropWhile isBlank = narrowFrom true cs := by
  induction cs generalizing afterBlank with
  | nil => rfl
  | cons c cs ih =>
    by_cases hc : isBlank c = true
    · cases afterBlank with
      | false =>
        rw [narrowFrom, if_pos hc, if_neg Bool.false_ne_true, List.dropWhile_cons_of_pos rfl, ih,
          narrowFrom, if_pos hc, if_pos rfl]
      | true => rw [narrowFrom, if_pos hc, if_pos rfl, ih]
    · rw [narrowFrom, if_neg hc, List.dropWhile_cons_of_neg hc, narrowFrom, if_neg hc]

end CodeOutline.Chars

namespace CodeOutline.Text

theorem trim_eq_empty_iff {s : String} : trim s = "" ↔ isBlankText s = true := by
  rw [isBlankText, List.all_eq_true, ← String.toList_inj, trim, String.toList_ofList]
  refine ⟨fun h c hc => ?_, Chars.trim_eq_nil⟩
  by_contra hsolid
  have hkept := Chars.mem_trim hc (by simpa using hsolid)
  rw [h] at hkept
  cases hkept

theorem trim_trim (s : String) : trim (trim s) = trim s := by
  rw [trim, trim, String.toList_ofList, Chars.trim_trim]

theorem trim_trimEnd (s : String) : trim (trimEnd s) = trim s := by
  rw [trim, trimEnd, String.toList_ofList, Chars.trim_dropEndWhile, trim]

theorem trim_blank_append {blanks : String} (h : isBlankText blanks = true) (s : String) :
    trim (blanks ++ s) = trim s := by
  rw [trim, String.toList_append, Chars.trim_blank_append (List.all_eq_true.mp h), trim]

theorem isEmpty_trim (s : String) : (trim s).isEmpty = isBlankText s := by
  rw [Bool.eq_iff_iff, String.isEmpty_iff, trim_eq_empty_iff]

/-- **Collapsing** is narrowing each run of blanks and trimming both ends. -/
theorem toList_collapse (s : String) :
    (collapse s).toList = Chars.trim (Chars.narrow s.toList) := by
  have hwords : (collapse s).toList = [' '].intercalate (Chars.words s.toList) := by
    rw [collapse, String.toList_intercalate, words, List.map_map]
    simp [Function.comp_def]
  rw [hwords, Chars.words, (Chars.intercalate_wordsFrom s.toList).2, Chars.trim, Chars.narrow,
    Chars.dropWhile_narrowFrom]

end CodeOutline.Text
