import CodeOutline.Proofs.Collapse
import CodeOutline.Text.Basic

/-!
# Cutting texts into lines

Lines are what stands between line feeds. Cutting undoes joining (`lines_intercalate`), up to two
things: a carriage return at the end of a line goes with the line feed after it, and an empty last
line is not counted.

Both are blank, so neither matters to those who trim lines.
-/

namespace CodeOutline

namespace Chars

open Text (isBlank)

/-- A line without the carriage return that may end it. -/
def chomp (line : List Char) : List Char :=
  if line.getLast? = some '\r' then line.dropLast else line

theorem exists_chomp (line : List Char) :
    ∃ stop, (∀ c ∈ stop, isBlank c = true) ∧ line = chomp line ++ stop := by
  rw [chomp]
  split
  · next hlast =>
    obtain ⟨front, rfl⟩ := List.getLast?_eq_some_iff.mp hlast
    exact ⟨['\r'], by simp; decide, by simp⟩
  · exact ⟨[], by simp, by simp⟩

theorem chomp_append {line : List Char} {c : Char} (hc : c ≠ '\r') (pre : List Char) :
    chomp (pre ++ c :: line) = pre ++ c :: chomp line := by
  by_cases hline : line = []
  · simp [chomp, hline, hc]
  · have hlast : (pre ++ c :: line).getLast? = line.getLast? := by
      rw [List.append_cons, List.getLast?_append_of_ne_nil _ hline]
    rw [chomp, chomp, hlast]
    split
    · simp [List.dropLast_cons_of_ne_nil hline]
    · rfl

theorem linesFrom_feed (line rest : List Char) :
    linesFrom line ('\n' :: rest) = chomp line.reverse :: linesFrom [] rest := by
  cases line with
  | nil => rfl
  | cons c line =>
    by_cases hc : c = '\r'
    · subst hc
      simp [linesFrom, chomp]
    · simp [linesFrom, chomp, hc]

theorem linesFrom_cons {c : Char} (hc : c ≠ '\n') (line cs : List Char) :
    linesFrom line (c :: cs) = linesFrom (c :: line) cs :=
  if_neg hc

/-- A line ends at the first line feed. -/
theorem linesFrom_append_feed {cs : List Char} (h : '\n' ∉ cs) (line rest : List Char) :
    linesFrom line (cs ++ '\n' :: rest) = chomp (line.reverse ++ cs) :: linesFrom [] rest := by
  induction cs generalizing line with
  | nil => rw [List.nil_append, List.append_nil, linesFrom_feed]
  | cons c cs ih =>
    obtain ⟨hc, hcs⟩ := not_or.mp (mt List.mem_cons.mpr h)
    rw [List.cons_append, linesFrom_cons (Ne.symm hc), ih hcs]
    simp

/-- What follows the last line feed is a line unless it is empty. -/
theorem linesFrom_of_not_mem {cs : List Char} (h : '\n' ∉ cs) (line : List Char) :
    linesFrom line cs = if line.reverse ++ cs = [] then [] else [line.reverse ++ cs] := by
  induction cs generalizing line with
  | nil => cases line <;> simp [linesFrom]
  | cons c cs ih =>
    obtain ⟨hc, hcs⟩ := not_or.mp (mt List.mem_cons.mpr h)
    rw [linesFrom_cons (Ne.symm hc), ih hcs]
    simp

theorem lines_append_feed {cs : List Char} (h : '\n' ∉ cs) (rest : List Char) :
    lines (cs ++ '\n' :: rest) = chomp cs :: lines rest :=
  linesFrom_append_feed h [] rest

theorem lines_of_not_mem {cs : List Char} (h : '\n' ∉ cs) :
    lines cs = if cs = [] then [] else [cs] :=
  linesFrom_of_not_mem h []

theorem mem_intercalate {sep : List Char} {parts : List (List Char)} {c : Char}
    (h : c ∈ sep.intercalate parts) : c ∈ sep ∨ ∃ p ∈ parts, c ∈ p := by
  induction parts with
  | nil => cases h
  | cons p parts ih =>
    cases parts with
    | nil => exact Or.inr ⟨p, List.mem_cons_self, by simpa using h⟩
    | cons q parts =>
      rw [List.intercalate_cons_cons, List.mem_append, List.mem_append] at h
      rcases h with (h | h) | h
      · exact Or.inr ⟨p, List.mem_cons_self, h⟩
      · exact Or.inl h
      · rcases ih h with h | ⟨r, hr, h⟩
        · exact Or.inl h
        · exact Or.inr ⟨r, List.mem_cons_of_mem p hr, h⟩

theorem mem_intercalate_of_mem {sep p : List Char} {parts : List (List Char)} {c : Char}
    (hp : p ∈ parts) (hc : c ∈ p) : c ∈ sep.intercalate parts := by
  induction parts with
  | nil => cases hp
  | cons q parts ih =>
    cases parts with
    | nil => simpa [List.mem_singleton.mp hp] using hc
    | cons r parts =>
      rw [List.intercalate_cons_cons, List.mem_append, List.mem_append]
      rcases List.mem_cons.mp hp with rfl | hp
      · exact Or.inl (Or.inl hc)
      · exact Or.inr (ih hp)

/-- **Cutting undoes joining.** -/
theorem lines_intercalate {parts : List (List Char)} {last : List Char}
    (hparts : ∀ part ∈ parts, '\n' ∉ part) (hlast : '\n' ∉ last) :
    lines (['\n'].intercalate (parts ++ [last])) =
      parts.map chomp ++ if last = [] then [] else [last] := by
  induction parts with
  | nil => simpa using lines_of_not_mem hlast
  | cons part parts ih =>
    have hjoin : ['\n'].intercalate (part :: parts ++ [last]) =
        part ++ '\n' :: ['\n'].intercalate (parts ++ [last]) := by
      cases parts <;> simp [List.intercalate_cons_cons]
    rw [hjoin, lines_append_feed (hparts part List.mem_cons_self),
      ih fun p hp => hparts p (List.mem_cons_of_mem part hp)]
    rfl

theorem mem_of_mem_linesFrom {line cs l : List Char} {c : Char} (hl : l ∈ linesFrom line cs)
    (hc : c ∈ l) : c ∈ line ∨ c ∈ cs := by
  induction cs generalizing line with
  | nil =>
    cases line with
    | nil => cases hl
    | cons d line =>
      rw [linesFrom, if_neg (by simp), List.mem_singleton] at hl
      exact Or.inl (List.mem_reverse.mp (hl ▸ hc))
  | cons d cs ih =>
    by_cases hd : d = '\n'
    · rw [hd, linesFrom_feed, List.mem_cons] at hl
      rcases hl with rfl | hl
      · obtain ⟨stop, -, hline⟩ := exists_chomp line.reverse
        have hmem : c ∈ line.reverse := hline ▸ List.mem_append_left stop hc
        exact Or.inl (List.mem_reverse.mp hmem)
      · exact Or.inr (List.mem_cons_of_mem d ((ih hl).resolve_left (List.not_mem_nil)))
    · rw [linesFrom_cons hd] at hl
      rcases ih hl with hmem | hmem
      · rcases List.mem_cons.mp hmem with rfl | hmem
        · exact Or.inr List.mem_cons_self
        · exact Or.inl hmem
      · exact Or.inr (List.mem_cons_of_mem d hmem)

/-- The lines of a text are blank exactly if it is, and what the current line has so far. -/
theorem blank_linesFrom_iff (line cs : List Char) :
    (∀ l ∈ linesFrom line cs, ∀ c ∈ l, isBlank c = true) ↔
      (∀ c ∈ line, isBlank c = true) ∧ ∀ c ∈ cs, isBlank c = true := by
  induction cs generalizing line with
  | nil =>
    cases line with
    | nil => simp [linesFrom]
    | cons c line => simp [linesFrom, or_comm]
  | cons d cs ih =>
    by_cases hd : d = '\n'
    · have hchomp : (∀ c ∈ chomp line.reverse, isBlank c = true) ↔
          ∀ c ∈ line, isBlank c = true := by
        obtain ⟨stop, hstop, hline⟩ := exists_chomp line.reverse
        have hall : (∀ c ∈ line, isBlank c = true) ↔ ∀ c ∈ line.reverse, isBlank c = true := by simp
        rw [hall]
        conv_rhs => rw [hline, List.forall_mem_append]
        exact (and_iff_left hstop).symm
      have hfeed : isBlank '\n' = true := by decide
      rw [hd, linesFrom_feed, List.forall_mem_cons, ih, hchomp]
      simp [hfeed]
    · rw [linesFrom_cons hd, ih]
      simp only [List.forall_mem_cons, and_assoc, and_left_comm]

end Chars

namespace Text

/-- A line without the carriage return that may end it. -/
def chomp (line : String) : String := String.ofList (Chars.chomp line.toList)

theorem toList_chomp (line : String) : (chomp line).toList = Chars.chomp line.toList :=
  String.toList_ofList

theorem trim_chomp (line : String) : trim (chomp line) = trim line := by
  obtain ⟨stop, hstop, hline⟩ := Chars.exists_chomp line.toList
  conv_rhs => rw [trim, hline, Chars.trim_append_blank hstop]
  rw [trim, toList_chomp]

theorem lines_intercalate {parts : List String} {last : String}
    (hparts : ∀ part ∈ parts, '\n' ∉ part.toList) (hlast : '\n' ∉ last.toList) :
    lines ("\n".intercalate (parts ++ [last])) =
      parts.map chomp ++ if last = "" then [] else [last] := by
  have hchars : ∀ part ∈ parts.map String.toList, '\n' ∉ part := by
    simpa using hparts
  have hjoined : ("\n".intercalate (parts ++ [last])).toList =
      ['\n'].intercalate (parts.map String.toList ++ [last.toList]) := by
    simp [String.toList_intercalate]
  rw [lines, hjoined, Chars.lines_intercalate hchars hlast, List.map_append, List.map_map,
    List.map_map]
  congr 1
  by_cases hempty : last = ""
  · simp [hempty]
  · simp [hempty]

/-- Joined lines are the lines with a line feed each, but for the last one. -/
theorem intercalate_concat (parts : List String) (last : String) :
    "\n".intercalate (parts ++ [last]) =
      String.join (parts.map fun part => part ++ "\n") ++ last := by
  induction parts with
  | nil => simp
  | cons part parts ih =>
    have hcons : "\n".intercalate (part :: parts ++ [last]) =
        part ++ "\n" ++ "\n".intercalate (parts ++ [last]) := by
      cases parts <;> simp [String.intercalate_cons_cons]
    rw [hcons, ih]
    simp [String.append_assoc]

theorem lines_eq_singleton {s : String} (h : '\n' ∉ s.toList) (hne : s ≠ "") : lines s = [s] := by
  have hlines : lines ("\n".intercalate ([] ++ [s])) = [].map chomp ++ if s = "" then [] else [s] :=
    lines_intercalate (by simp) h
  rwa [List.nil_append, String.intercalate_singleton, if_neg hne] at hlines

theorem mem_of_mem_lines {s line : String} {c : Char} (hline : line ∈ lines s)
    (hc : c ∈ line.toList) : c ∈ s.toList := by
  obtain ⟨l, hl, rfl⟩ := List.mem_map.mp hline
  rw [String.toList_ofList] at hc
  exact (Chars.mem_of_mem_linesFrom hl hc).resolve_left List.not_mem_nil

theorem blank_lines_iff {s : String} :
    (∀ line ∈ lines s, isBlankText line = true) ↔ isBlankText s = true := by
  simp only [lines, List.forall_mem_map, isBlankText, String.toList_ofList, List.all_eq_true]
  simpa [Chars.lines] using Chars.blank_linesFrom_iff [] s.toList

end Text

end CodeOutline
