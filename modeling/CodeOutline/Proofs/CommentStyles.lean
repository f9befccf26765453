import CodeOutline.Proofs.Affixes
import CodeOutline.Proofs.Arguments
import CodeOutline.Proofs.Lines
import CodeOutline.Proofs.Summaries

/-!
# Comment styles

The same lines of documentation can be written as a block comment, as line comments or as a string
literal.

**Theorem (`summary_same_in_every_style`).** However they are written, their summary is that of the
lines themselves.

Summaries are made of trimmed lines, so blanks around a line do not matter (`ofLines_congr`), and
neither do blank lines before the first line or after the last one (`ofLines_cons_blank`,
`ofLines_concat_blank`). It remains to see that a reader takes off no more than the marks of its
style. For string literals this is so whatever the lines look like: the indentation that is taken
off may end in the middle of a character, but it never reaches beyond the blanks of a line
(`ofLines_dedent`).
-/

namespace CodeOutline

/-! ## Marks of a style -/

namespace Chars

open Text (isBlank)

/-- Taking off bytes takes off blanks only, as long as the line begins with that many bytes of them
or holds nothing else. -/
theorem trim_of_dropBytes? {n : Nat} {cs kept : List Char} (h : dropBytes? n cs = some kept)
    (hblank : cs.all isBlank = false → n ≤ byteLength (cs.takeWhile isBlank)) :
    trim kept = trim cs := by
  fun_induction dropBytes? n cs with
  | case1 cs => rw [Option.some.inj h]
  | case2 n => cases h
  | case3 n c cs hsize ih =>
    by_cases hc : isBlank c = true
    · have hrest : trim ([c] ++ cs) = trim cs := trim_blank_append (by simpa using hc)
      rw [← List.singleton_append, hrest]
      refine ih h fun hsolid => ?_
      have hle := hblank (by simp [hsolid])
      rw [List.takeWhile_cons_of_pos hc, byteLength] at hle
      omega
    · have hle := hblank (by simp [hc])
      rw [List.takeWhile_cons_of_neg hc, byteLength] at hle
      omega
  | case4 n c cs hsize => cases h

/-- The delimiters are taken off a block comment and nothing else. -/
theorem dropDelimiters (cs : List Char) :
    dropAllEnd "*/".toList (dropAll "/*".toList (dropAll "/*!".toList (dropAll "/**".toList
      (trim ("/**".toList ++ ('\n' :: (cs ++ [' '])) ++ "*/".toList))))) =
      '\n' :: (cs ++ [' ']) := by
  have hopen : ∀ mark rest : List Char, mark.head? = some '/' →
      dropAll mark ('\n' :: rest) = '\n' :: rest := by
    intro mark rest hmark
    obtain ⟨after, rfl⟩ := List.head?_eq_some_iff.mp hmark
    exact dropAll_eq_self (by simp) (by simp)
  have htrim : ∀ body : List Char, trim ("/**".toList ++ body ++ "*/".toList) =
      "/**".toList ++ body ++ "*/".toList := by
    intro body
    refine trim_eq_self ?_ ?_
    · have hslash : isBlank '/' = false := by decide
      simp [hslash]
    · have hslash : isBlank '/' = false := by decide
      rw [List.getLast?_append_of_ne_nil _ (by simp)]
      simp [hslash]
  have hclose : ¬ "*/".toList <:+ '\n' :: (cs ++ [' ']) := by
    rintro ⟨front, h⟩
    have hlast := congrArg List.getLast? h
    rw [← List.cons_append, List.getLast?_concat,
      List.getLast?_append_of_ne_nil _ (by simp)] at hlast
    simp at hlast
  rw [htrim, List.append_assoc, dropAll_append (by simp), List.cons_append, hopen _ _ rfl,
    hopen _ _ rfl, hopen _ _ rfl, ← List.cons_append, dropAllEnd_append (by simp) hclose]

end Chars

namespace Summary

open Text

/-! ## Writing lines -/

/-- Lines as a block comment, each behind a star. -/
def asBlockComment (lines : List String) : String :=
  "/**\n" ++ String.join (lines.map fun line => " * " ++ line ++ "\n") ++ " */"

/-- Lines as line comments. -/
def asLineComments (lines : List String) : List String := lines.map fun line => "/// " ++ line

/-- The lines after the first one, each behind the same indentation. -/
def indentRest (indent : String) : List String → List String
  | [] => []
  | first :: rest => first :: rest.map fun line => indent ++ line

/-- Lines as a string literal. -/
def asStringLiteral (indent : String) (lines : List String) : String :=
  "\"\"\"" ++ "\n".intercalate (indentRest indent lines) ++ "\"\"\""

/-! ## Blanks that do not matter -/

theorem ofLines_congr {xs ys : List String} (h : xs.map trim = ys.map trim) :
    ofLines xs = ofLines ys := by
  rw [ofLines, h, ofLines]

theorem underlined_concat_empty (lines : List String) :
    underlined (lines ++ [""]) = underlined lines := by
  cases lines <;> rfl

theorem prose_concat_empty (lines : List String) : prose (lines ++ [""]) = prose lines := by
  induction lines with
  | nil => rfl
  | cons line rest ih => rw [List.cons_append, prose, prose, underlined_concat_empty, ih]

theorem bodyLine?_concat_empty (lines : List String) :
    bodyLine? (lines ++ [""]) = bodyLine? lines := by
  induction lines with
  | nil => rfl
  | cons line rest ih => rw [List.cons_append, bodyLine?, bodyLine?, underlined_concat_empty, ih]

theorem dropWhile_concat_empty (lines : List String) :
    prose ((lines ++ [""]).dropWhile String.isEmpty) = prose (lines.dropWhile String.isEmpty) := by
  rw [List.dropWhile_append]
  split
  · next hempty => rw [List.isEmpty_iff.mp hempty]; rfl
  · exact prose_concat_empty _

theorem standIn?_concat_empty (lines : List String) :
    standIn? (lines ++ [""]) = standIn? lines := by
  simp [standIn?, bodyLine?_concat_empty, isTagLine_empty]

theorem standIn?_cons_empty (lines : List String) : standIn? ("" :: lines) = standIn? lines := by
  simp [standIn?, bodyLine?, isTagLine_empty]

theorem ofTrimmed_congr {xs ys : List String}
    (hprose : prose (xs.dropWhile String.isEmpty) = prose (ys.dropWhile String.isEmpty))
    (hstandIn : standIn? xs = standIn? ys) : ofTrimmed xs = ofTrimmed ys := by
  rw [ofTrimmed, ofTrimmed, hprose]
  split
  · exact hstandIn
  · rfl

theorem ofLines_cons_blank {line : String} (h : isBlankText line = true) (lines : List String) :
    ofLines (line :: lines) = ofLines lines := by
  rw [ofLines, List.map_cons, trim_eq_empty_iff.mpr h]
  exact ofTrimmed_congr rfl (standIn?_cons_empty _)

theorem ofLines_concat_blank {line : String} (h : isBlankText line = true) (lines : List String) :
    ofLines (lines ++ [line]) = ofLines lines := by
  rw [ofLines, List.map_append, List.map_singleton, trim_eq_empty_iff.mpr h]
  exact ofTrimmed_congr (dropWhile_concat_empty _) (standIn?_concat_empty _)

/-- Cutting joined lines makes no difference. -/
theorem ofLines_lines_intercalate {lines : List String} (h : ∀ line ∈ lines, '\n' ∉ line.toList) :
    ofLines (Text.lines ("\n".intercalate lines)) = ofLines lines := by
  rcases lines.eq_nil_or_concat with rfl | ⟨front, last, rfl⟩
  · rfl
  · simp only [List.concat_eq_append] at h ⊢
    obtain ⟨hfront, hlast⟩ := List.forall_mem_append.mp h
    rw [Text.lines_intercalate hfront (hlast last List.mem_cons_self)]
    have htrim : (front.map chomp).map trim = front.map trim := by simp [trim_chomp]
    split
    · next hempty =>
      rw [hempty, List.append_nil, ofLines_concat_blank rfl]
      exact ofLines_congr htrim
    · exact ofLines_congr (by rw [List.map_append, htrim, List.map_append])

/-! ## String literals -/

/-- **Indentation.** Only blanks are taken off the lines of a literal. -/
theorem ofLines_dedent (body : String) : ofLines (dedent body) = ofLines (lines body) := by
  rw [dedent]
  split
  · next hnil => rw [hnil]; rfl
  · next first rest hlines =>
    rw [hlines]
    apply ofLines_congr
    rw [List.map_cons, List.map_cons, trim_trim, List.map_map]
    congr 1
    apply List.map_congr_left
    intro line hline
    rw [Function.comp_apply]
    split
    · next kept hkept =>
      rw [trim_trimEnd, trim, String.toList_ofList, trim]
      congr 1
      refine Chars.trim_of_dropBytes? hkept fun hsolid => ?_
      apply List.min?_getD_le_of_mem
      exact List.mem_map_of_mem (List.mem_filter.mpr ⟨hline, by simp [isBlankText, hsolid]⟩)
    · exact trim_trim line

theorem literalBody?_quoted (body : String) :
    literalBody? ("\"\"\"" ++ body ++ "\"\"\"") = some body := by
  have hquoted : dropStart ['r', 'R', 'u', 'U', 'b', 'B', 'f', 'F']
      ("\"\"\"" ++ body ++ "\"\"\"") = "\"\"\"" ++ body ++ "\"\"\"" := by
    simp [dropStart, ← String.toList_inj]
  have hbody : (afterStart? "\"\"\"" ("\"\"\"" ++ body ++ "\"\"\"")).bind
      (beforeEnd? "\"\"\"") = some body := between?_eq_some_iff.mpr (by simp)
  rw [literalBody?, hquoted, List.findSome?_cons, hbody]

theorem ofStringLiteral_asStringLiteral {indent : String} (hindent : isBlankText indent = true)
    (hfeed : '\n' ∉ indent.toList) {lines : List String} (h : ∀ line ∈ lines, '\n' ∉ line.toList) :
    ofStringLiteral (asStringLiteral indent lines) = ofLines lines := by
  have hlines : ∀ line ∈ indentRest indent lines, '\n' ∉ line.toList := by
    cases lines with
    | nil => exact h
    | cons first rest =>
      obtain ⟨hfirst, hrest⟩ := List.forall_mem_cons.mp h
      refine List.forall_mem_cons.mpr ⟨hfirst, List.forall_mem_map.mpr fun line hline => ?_⟩
      rw [String.toList_append, List.mem_append, not_or]
      exact ⟨hfeed, hrest line hline⟩
  have htrim : (indentRest indent lines).map trim = lines.map trim := by
    cases lines with
    | nil => rfl
    | cons first rest => simp [indentRest, trim_blank_append hindent]
  rw [ofStringLiteral, asStringLiteral, literalBody?_quoted, Option.bind_some, ofLines_dedent,
    ofLines_lines_intercalate hlines, ofLines_congr htrim]

/-! ## Line comments -/

theorem dropMarker_marked (line : String) : dropMarker ("/// " ++ line) = trimEnd line := by
  have hstart : trimStart ("/// " ++ line) = "/// " ++ line := by
    have hslash : isBlank '/' = false := by decide
    simp [trimStart, hslash, ← String.toList_inj]
  have hmark : afterStart? "///" ("/// " ++ line) = some (" " ++ line) := by
    simp [afterStart?, Chars.after?]
  have hspace : dropOne " " (" " ++ line) = line := by
    simp [dropOne, afterStart?, Chars.after?]
  simp [dropMarker, hstart, hmark, hspace]

theorem ofLineComments_asLineComments {lines : List String}
    (h : ∀ line ∈ lines, '\n' ∉ line.toList) :
    ofLineComments (asLineComments lines) = ofLines lines := by
  have hcut : (asLineComments lines).flatMap Text.lines = asLineComments lines := by
    have hlines : ∀ line ∈ asLineComments lines, Text.lines line = [line] := by
      refine List.forall_mem_map.mpr fun line hline => lines_eq_singleton ?_ (by simp)
      simpa using h line hline
    rw [List.flatMap_congr hlines, List.flatMap_singleton']
  rw [ofLineComments, dropMarkers, hcut]
  apply ofLines_congr
  simp [asLineComments, dropMarker_marked, trim_trimEnd]

/-! ## Block comments -/

/-- What stands between the delimiters: an empty line, the lines, and the space before the end. -/
theorem body_asBlockComment (lines : List String) :
    dropAllEnd "*/" (dropAll "/*" (dropAll "/*!" (dropAll "/**" (trim (asBlockComment lines))))) =
      "\n".intercalate ("" :: lines.map (fun line => " * " ++ line) ++ [" "]) := by
  let rows := String.join (lines.map fun line => " * " ++ line ++ "\n")
  have hcomment : (asBlockComment lines).toList =
      "/**".toList ++ ('\n' :: (rows.toList ++ [' '])) ++ "*/".toList := by
    simp [asBlockComment, rows]
  have hbody : "\n".intercalate ("" :: lines.map (fun line => " * " ++ line) ++ [" "]) =
      "\n" ++ rows ++ " " := by
    simp only [intercalate_concat, List.map_cons, List.map_map, Function.comp_def, rows]
    simp
  rw [hbody]
  simp only [dropAllEnd, dropAll, trim, String.toList_ofList, hcomment, Chars.dropDelimiters]
  simp [← String.toList_inj]

theorem dropStar_marked (line : String) :
    dropStar (chomp (" * " ++ line)) = trimEnd (chomp line) := by
  have hchomp : chomp (" * " ++ line) = " * " ++ chomp line := by
    rw [← String.toList_inj, toList_chomp, String.toList_append, String.toList_append, toList_chomp]
    exact Chars.chomp_append (c := ' ') (by decide) [' ', '*']
  have hstart : trimStart (" * " ++ chomp line) = "* " ++ chomp line := by
    have hspace : isBlank ' ' = true := by decide
    have hstar : isBlank '*' = false := by decide
    simp [trimStart, hspace, hstar, ← String.toList_inj]
  have hmarks : dropOne " " (dropOne "*" ("* " ++ chomp line)) = chomp line := by
    simp [dropOne, afterStart?, Chars.after?]
  rw [dropStar, hchomp, hstart, hmarks]

theorem ofBlockComment_asBlockComment {lines : List String}
    (h : ∀ line ∈ lines, '\n' ∉ line.toList) :
    ofBlockComment (asBlockComment lines) = ofLines lines := by
  have hrows : ∀ row ∈ "" :: lines.map (fun line => " * " ++ line), '\n' ∉ row.toList := by
    refine List.forall_mem_cons.mpr ⟨by simp, List.forall_mem_map.mpr fun line hline => ?_⟩
    simpa using h line hline
  have hread : ofBlockComment (asBlockComment lines) =
      ofLines ((Text.lines ("\n".intercalate
        ("" :: lines.map (fun line => " * " ++ line) ++ [" "]))).map dropStar) := by
    rw [← body_asBlockComment]
    rfl
  have hempty : dropStar (chomp "") = "" ∧ dropStar " " = "" := by decide
  rw [hread, lines_intercalate hrows (by simp), if_neg (by simp), List.map_append, List.map_map,
    List.map_cons, List.map_map, List.map_singleton, Function.comp_apply, hempty.1, hempty.2,
    List.cons_append, ofLines_cons_blank rfl, ofLines_concat_blank rfl]
  apply ofLines_congr
  simp [dropStar_marked, trim_trimEnd, trim_chomp]

/-! ## All styles -/

/-- **Comment styles.** The same lines have the same summary as a block comment, as line comments
and as a string literal with any indentation. -/
theorem summary_same_in_every_style (lines : List String)
    (h : ∀ line ∈ lines, '\n' ∉ line.toList) :
    ofBlockComment (asBlockComment lines) = ofLines lines ∧
    ofLineComments (asLineComments lines) = ofLines lines ∧
    ∀ indent, isBlankText indent = true → '\n' ∉ indent.toList →
      ofStringLiteral (asStringLiteral indent lines) = ofLines lines :=
  ⟨ofBlockComment_asBlockComment h, ofLineComments_asLineComments h,
    fun _ hindent hfeed => ofStringLiteral_asStringLiteral hindent hfeed h⟩

/-- Lines that begin with marks of comments and quotes, the second behind a wide space. -/
def markedLines : List String := ["* one", "\u3000/// */ \"\"\"", "", " @param x"]

/-- The marks of the lines are kept, also behind an indentation that ends inside the wide space. -/
theorem sameSummary_markedLines :
    let summary := some "* one\n/// */ \"\"\""
    (∀ line ∈ markedLines, '\n' ∉ line.toList) ∧ isBlankText "\u2003" = true ∧
      '\n' ∉ "\u2003".toList ∧ ofBlockComment (asBlockComment markedLines) = summary ∧
      ofLineComments (asLineComments markedLines) = summary ∧
      ofStringLiteral (asStringLiteral "\u2003" markedLines) = summary := by
  intro summary
  have hfixed : (∀ line ∈ markedLines, '\n' ∉ line.toList) ∧ isBlankText "\u2003" = true ∧
      '\n' ∉ "\u2003".toList ∧ ofLines markedLines = summary := by decide +kernel
  obtain ⟨hlines, hindent, hfeed, hsummary⟩ := hfixed
  obtain ⟨hblock, hline, hliteral⟩ := summary_same_in_every_style markedLines hlines
  rw [hblock, hline, hliteral _ hindent hfeed]
  exact ⟨hlines, hindent, hfeed, hsummary, hsummary, hsummary⟩

end Summary

end CodeOutline
