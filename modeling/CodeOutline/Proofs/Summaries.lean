import CodeOutline.Proofs.Collapse
import CodeOutline.Summary

/-!
# What a summary is made of

The lines of a comment are trimmed and read from the first one that is not blank. As long as prose
goes on they are taken; if there is none, a single line stands for the whole.

**Theorem (`summary_is_run_of_lines`).** Only a comment of blank lines has no summary. Any other
summary is a run of lines that stand together, none of them blank, each trimmed. If the first line
that is not blank is prose, the run begins there and ends before the first line where there is no
prose, so nothing of the first paragraph is lost and nothing else is added.
-/

namespace CodeOutline

namespace Summary

open Text

/-! ## Prose -/

/-- The lines begin with prose: with a line that is not blank, no underline and no tag line, and
that does not stand above an underline. -/
def startsProse : List String → Bool
  | [] => false
  | line :: rest =>
    !isBlankText line && !isUnderline (trim line) && !isTagLine (trim line) &&
      !underlined (rest.map trim)

/-- Prose is taken line by line, up to the first place where there is none. -/
theorem prose_map_trim (lines : List String) : ∃ n, n ≤ lines.length ∧
    prose (lines.map trim) = (lines.take n).map trim ∧
    (∀ k < n, startsProse (lines.drop k) = true) ∧ startsProse (lines.drop n) = false := by
  induction lines with
  | nil => exact ⟨0, Nat.le_refl 0, rfl, by simp, rfl⟩
  | cons line rest ih =>
    have hstarts : ((trim line).isEmpty || isUnderline (trim line) || isTagLine (trim line) ||
        underlined (rest.map trim)) = !startsProse (line :: rest) := by
      simp only [startsProse, isEmpty_trim, Bool.not_and, Bool.not_not]
    rw [List.map_cons, prose, hstarts]
    cases hprose : startsProse (line :: rest) with
    | false => exact ⟨0, Nat.zero_le _, rfl, by simp, hprose⟩
    | true =>
      obtain ⟨n, hle, htaken, hbefore, hend⟩ := ih
      refine ⟨n + 1, Nat.succ_le_succ hle, ?_, fun k hk => ?_, hend⟩
      · rw [htaken]
        rfl
      · cases k with
        | zero => exact hprose
        | succ k => exact hbefore k (by omega)

/-! ## Runs of lines -/

/-- The lines from place `i` up to place `j`, without it. -/
def between (lines : List String) (i j : Nat) : List String := (lines.take j).drop i

/-- Lines that stand together, none of them blank, trimmed and put together again. -/
def IsRun (lines : List String) (i j : Nat) (text : String) : Prop :=
  i < j ∧ j ≤ lines.length ∧ (∀ line ∈ between lines i j, isBlankText line = false) ∧
    text = "\n".intercalate ((between lines i j).map trim)

theorem between_append (before rest : List String) (n : Nat) :
    between (before ++ rest) before.length (before.length + n) = rest.take n := by
  rw [between, List.take_length_add_append, List.drop_left]

theorem isRun_of_mem {lines : List String} {line : String} (hmem : line ∈ lines)
    (hblank : isBlankText line = false) : ∃ i, IsRun lines i (i + 1) (trim line) := by
  obtain ⟨before, after, rfl⟩ := List.append_of_mem hmem
  have hbetween : between (before ++ line :: after) before.length (before.length + 1) = [line] :=
    between_append before (line :: after) 1
  refine ⟨before.length, by omega, by simp, ?_, ?_⟩
  · rw [hbetween]
    simpa using hblank
  · rw [hbetween]
    simp

theorem IsRun.ne_empty {lines : List String} {i j : Nat} {text : String}
    (h : IsRun lines i j text) : text ≠ "" := by
  obtain ⟨hlt, hle, hsolid, rfl⟩ := h
  have hne : between lines i j ≠ [] := by
    rw [between, ← List.length_pos_iff, List.length_drop, List.length_take]
    omega
  obtain ⟨line, rest, heq⟩ := List.exists_cons_of_ne_nil hne
  have hline : trim line ≠ "" := by
    rw [Ne, trim_eq_empty_iff, hsolid line (heq ▸ List.mem_cons_self)]
    exact Bool.false_ne_true
  rw [heq, List.map_cons]
  cases rest with
  | nil => simpa using hline
  | cons next rest =>
    rw [List.map_cons, String.intercalate_cons_cons]
    simp [hline]

/-! ## The first paragraph -/

theorem dropWhile_map_trim (lines : List String) :
    (lines.map trim).dropWhile String.isEmpty = (lines.dropWhile isBlankText).map trim := by
  rw [List.dropWhile_map]
  congr 2
  funext line
  exact isEmpty_trim line

theorem isBlankText_of_startsProse {line : String} {rest : List String}
    (h : startsProse (line :: rest) = true) : isBlankText line = false := by
  simp only [startsProse, Bool.and_eq_true, Bool.not_eq_true'] at h
  exact h.1.1.1

/-- **The first paragraph** is all the prose that follows the blank lines at the front. -/
theorem ofLines_of_startsProse {before rest : List String}
    (hbefore : ∀ line ∈ before, isBlankText line = true) (hrest : startsProse rest = true) :
    ∃ n text, ofLines (before ++ rest) = some text ∧
      IsRun (before ++ rest) before.length (before.length + n) text ∧
      (∀ k < n, startsProse (rest.drop k) = true) ∧ startsProse (rest.drop n) = false := by
  have hskip : (before ++ rest).dropWhile isBlankText = rest := by
    rw [List.dropWhile_append_of_pos hbefore]
    cases rest with
    | nil => rfl
    | cons line rest =>
      exact List.dropWhile_cons_of_neg (by simp [isBlankText_of_startsProse hrest])
  obtain ⟨n, hle, hprose, hbelow, hend⟩ := prose_map_trim rest
  have hpos : 0 < n := by
    refine Nat.pos_of_ne_zero fun hzero => ?_
    rw [hzero, List.drop_zero, hrest] at hend
    cases hend
  refine ⟨n, _, ?_, ⟨by omega, by simpa using hle, ?_, rfl⟩, hbelow, hend⟩
  · have hne : (rest.take n).map trim ≠ [] := by
      simp only [ne_eq, List.map_eq_nil_iff, List.take_eq_nil_iff, not_or]
      exact ⟨by omega, fun hnil => by simp [hnil, startsProse] at hrest⟩
    rw [ofLines, ofTrimmed, dropWhile_map_trim, hskip, hprose, between_append]
    obtain ⟨line, more, heq⟩ := List.exists_cons_of_ne_nil hne
    rw [heq]
  · rw [between_append]
    intro line hline
    obtain ⟨k, hk, rfl⟩ := List.mem_take_iff_getElem.mp hline
    have hstarts := hbelow k (by omega)
    rw [List.drop_eq_getElem_cons (by omega)] at hstarts
    exact isBlankText_of_startsProse hstarts

/-! ## Comments without prose at the front -/

theorem mem_of_bodyLine? {lines : List String} {line : String} (h : bodyLine? lines = some line) :
    line ∈ lines ∧ line ≠ "" := by
  induction lines with
  | nil => cases h
  | cons first rest ih =>
    rw [bodyLine?] at h
    split at h
    · next hbody =>
      obtain rfl := Option.some.inj h
      simp only [Bool.and_eq_true, Bool.not_eq_true', String.isEmpty_eq_false_iff] at hbody
      exact ⟨List.mem_cons_self, hbody.1.1.1⟩
    · obtain ⟨hmem, hne⟩ := ih h
      exact ⟨List.mem_cons_of_mem first hmem, hne⟩

theorem isTagLine_empty : isTagLine "" = false := by decide +kernel

theorem mem_of_standIn? {lines : List String} {line : String} (h : standIn? lines = some line) :
    line ∈ lines ∧ line ≠ "" := by
  rw [standIn?, Option.or_eq_some_iff, Option.or_eq_some_iff] at h
  rcases h with (htag | ⟨-, hbody⟩) | ⟨-, hline⟩
  · refine ⟨List.mem_of_find?_eq_some htag, ?_⟩
    rintro rfl
    have hfound := List.find?_some htag
    rw [isTagLine_empty, Bool.false_and] at hfound
    cases hfound
  · exact mem_of_bodyLine? hbody
  · exact ⟨List.mem_of_find?_eq_some hline, by simpa using List.find?_some hline⟩

theorem standIn?_eq_none_iff {lines : List String} :
    standIn? lines = none ↔ ∀ line ∈ lines, line = "" := by
  constructor
  · intro h line hline
    rw [standIn?, Option.or_eq_none_iff] at h
    simpa using List.find?_eq_none.mp h.2 line hline
  · intro h
    cases hline : standIn? lines with
    | none => rfl
    | some line =>
      obtain ⟨hmem, hne⟩ := mem_of_standIn? hline
      exact absurd (h line hmem) hne

theorem ofLines_of_not_startsProse {lines : List String}
    (h : startsProse (lines.dropWhile isBlankText) = false) :
    ofLines lines = standIn? (lines.map trim) := by
  obtain ⟨n, -, hprose, hbelow, -⟩ := prose_map_trim (lines.dropWhile isBlankText)
  have hzero : n = 0 := by
    by_contra hne
    have hstarts := hbelow 0 (Nat.pos_of_ne_zero hne)
    rw [List.drop_zero, h] at hstarts
    cases hstarts
  rw [ofLines, ofTrimmed, dropWhile_map_trim, hprose, hzero]
  rfl

/-! ## All comments -/

theorem ofLines_eq_none_iff {lines : List String} :
    ofLines lines = none ↔ ∀ line ∈ lines, isBlankText line = true := by
  cases hprose : startsProse (lines.dropWhile isBlankText) with
  | false =>
    rw [ofLines_of_not_startsProse hprose, standIn?_eq_none_iff, List.forall_mem_map]
    simp only [trim_eq_empty_iff]
  | true =>
    obtain ⟨n, text, hsummary, -⟩ := ofLines_of_startsProse
      (fun _ => List.mem_takeWhile_imp (p := isBlankText) (l := lines)) hprose
    rw [List.takeWhile_append_dropWhile] at hsummary
    rw [hsummary]
    refine iff_of_false (by simp) fun hblank => ?_
    rw [List.dropWhile_eq_nil_iff.mpr hblank] at hprose
    cases hprose

theorem exists_isRun {lines : List String} {text : String} (h : ofLines lines = some text) :
    ∃ i j, IsRun lines i j text := by
  cases hprose : startsProse (lines.dropWhile isBlankText) with
  | false =>
    rw [ofLines_of_not_startsProse hprose] at h
    obtain ⟨hmem, hne⟩ := mem_of_standIn? h
    obtain ⟨line, hline, rfl⟩ := List.mem_map.mp hmem
    rw [Ne, trim_eq_empty_iff, Bool.not_eq_true] at hne
    obtain ⟨i, hrun⟩ := isRun_of_mem hline hne
    exact ⟨i, i + 1, hrun⟩
  | true =>
    obtain ⟨n, summary, hsummary, hrun, -⟩ := ofLines_of_startsProse
      (fun _ => List.mem_takeWhile_imp (p := isBlankText) (l := lines)) hprose
    rw [List.takeWhile_append_dropWhile] at hsummary hrun
    rw [hsummary] at h
    obtain rfl := Option.some.inj h
    exact ⟨_, _, hrun⟩

/-- **Summaries.** Only blank lines have no summary, and every summary is a run of lines. If the
first line that is not blank is prose, the run goes from there to the first place without prose. -/
theorem summary_is_run_of_lines (lines : List String) :
    (ofLines lines = none ↔ ∀ line ∈ lines, isBlankText line = true) ∧
    (∀ text, ofLines lines = some text → text ≠ "" ∧ ∃ i j, IsRun lines i j text) ∧
    ∀ i, (∀ line ∈ lines.take i, isBlankText line = true) → startsProse (lines.drop i) = true →
      ∃ j text, ofLines lines = some text ∧ IsRun lines i j text ∧
        (∀ k, i ≤ k → k < j → startsProse (lines.drop k) = true) ∧
        startsProse (lines.drop j) = false := by
  refine ⟨ofLines_eq_none_iff, fun text htext => ?_, fun i hblank hprose => ?_⟩
  · obtain ⟨i, j, hrun⟩ := exists_isRun htext
    exact ⟨hrun.ne_empty, i, j, hrun⟩
  · obtain ⟨n, text, hsummary, hrun, hbelow, hend⟩ := ofLines_of_startsProse hblank hprose
    have hlength : (lines.take i).length = i := by
      rw [List.length_take_of_le]
      by_contra hover
      rw [List.drop_eq_nil_of_le (by omega)] at hprose
      cases hprose
    rw [List.take_append_drop, hlength] at hrun
    rw [List.take_append_drop] at hsummary
    rw [List.drop_drop] at hend
    refine ⟨i + n, text, hsummary, hrun, fun k hik hkj => ?_, hend⟩
    have hstarts := hbelow (k - i) (by omega)
    rwa [List.drop_drop, Nat.add_sub_cancel' hik] at hstarts

/-- A line of prose, then a title with its underline. -/
def titledLines : List String := ["", " Compute totals", "Parameters", "----------", "x : int"]

theorem summary_titledLines :
    (∀ line ∈ titledLines.take 1, isBlankText line = true) ∧
    startsProse (titledLines.drop 1) = true ∧ ofLines titledLines = some "Compute totals" ∧
    IsRun titledLines 1 2 "Compute totals" := by
  have hlines : (∀ line ∈ titledLines.take 1, isBlankText line = true) ∧
      startsProse (titledLines.drop 1) = true ∧ startsProse (titledLines.drop 2) = false ∧
      "\n".intercalate ((between titledLines 1 2).map trim) = "Compute totals" := by decide +kernel
  obtain ⟨hblank, hprose, htitle, htext⟩ := hlines
  obtain ⟨j, text, hsummary, hrun, hbelow, -⟩ :=
    (summary_is_run_of_lines titledLines).2.2 1 hblank hprose
  have hj : j = 2 := by
    by_contra hne
    have hlt := hrun.1
    have hstarts := hbelow 2 (by omega) (by omega)
    rw [htitle] at hstarts
    cases hstarts
  subst hj
  rw [hrun.2.2.2, htext] at hsummary
  rw [hrun.2.2.2, htext] at hrun
  exact ⟨hblank, hprose, hsummary, hrun⟩

end Summary

end CodeOutline
