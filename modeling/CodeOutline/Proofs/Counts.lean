import CodeOutline.Proofs.Documents
import CodeOutline.Proofs.FileReading
import CodeOutline.Proofs.LineNumbers

/-!
# Counts in outlines

Documents hold counts below `2 ^ 64`: of lines, line numbers and arguments. An outline keeps to this
if its file does and its tree does.

A file has at most as many lines as bytes, and an offset has at most as many line feeds before it
(`Source.rowAt_le`). Arguments are counted among the children of one node (`CallSite.Counts`). So
the outline of a file fits if the file has fewer than `2 ^ 64 - 1` bytes and no node of its tree has
`2 ^ 64` children (`Outliner.countsFit_outlineFile`). A failed outline always does.
-/

namespace CodeOutline

open Record

/-! ## Lines and bytes -/

theorem Chars.length_linesFrom_le (line cs : List Char) :
    (linesFrom line cs).length ≤ cs.length + line.length := by
  induction cs generalizing line with
  | nil =>
    cases line with
    | nil => exact Nat.le_refl _
    | cons c line => simp [linesFrom]
  | cons c cs ih =>
    rw [Source.length_linesFrom_cons, List.length_cons]
    split
    · have hrest := ih []
      rw [List.length_nil] at hrest
      omega
    · have hrest := ih (c :: line)
      rw [List.length_cons] at hrest
      omega

theorem Utf8.length_toList_le (s : String) : s.toList.length ≤ s.utf8ByteSize := by
  rw [← length_encode, encode]
  induction s.toList with
  | nil => exact Nat.le_refl _
  | cons c cs ih =>
    have hsize := c.utf8Size_pos
    rw [List.flatMap_cons, List.length_append, String.length_utf8EncodeChar, List.length_cons]
    omega

theorem Text.length_lines_le (s : String) : (lines s).length ≤ s.utf8ByteSize := by
  have hlines := Chars.length_linesFrom_le [] s.toList
  have hchars := Utf8.length_toList_le s
  rw [lines, List.length_map, Chars.lines]
  rw [List.length_nil] at hlines
  omega

theorem Source.rowAt_le (src : String) (offset : Nat) : rowAt src offset ≤ src.utf8ByteSize := by
  rw [rowAt_eq_count, ← Utf8.length_encode]
  exact Nat.le_trans List.count_le_length (List.take_sublist _ _).length_le

theorem Outliner.utf8ByteSize_dropOrderMark_le (text : String) :
    (dropOrderMark text).utf8ByteSize ≤ text.utf8ByteSize := by
  rcases unmarked_dropOrderMark text with htext | ⟨_, hsame⟩
  · have hsize := congrArg String.utf8ByteSize htext
    rw [String.utf8ByteSize_append] at hsize
    omega
  · rw [hsame]

/-! ## Arguments -/

namespace CallSite

theorem countArguments_le (s : Tree) : countArguments (some s) ≤ s.children.length :=
  Nat.le_trans (List.length_filter_le _ _) (List.length_filter_le _ _)

/-- There are at most as many arguments as some child of the call has children. -/
theorem Counts.lt {t : Tree} {arguments limit : Nat} (h : Counts t arguments) (hlimit : 0 < limit)
    (hchildren : ∀ s ∈ t.children, s.children.length < limit) : arguments < limit := by
  obtain ⟨list, rfl, hlist⟩ := h
  cases list with
  | none => exact hlimit
  | some s => exact Nat.lt_of_le_of_lt (countArguments_le s) (hchildren s (hlist s rfl))

end CallSite

/-! ## Outlines -/

/-- The children of every node can be counted. -/
def Tree.CountsFit (root : Tree) : Prop := ∀ t ∈ root.nodes, t.children.length < countLimit

theorem Outline.Failed.countsFit {o : Outline} (h : o.Failed) : o.CountsFit := by
  refine ⟨?_, ?_, ?_⟩
  · rw [h.lineCount]
    decide
  · rw [h.contents]
    simp
  · rw [h.contents]
    simp

namespace Language

variable {l : Language} {src : String} {root : Tree}

theorem lines_lt_of_mem_symbols (hsize : src.utf8ByteSize + 1 < countLimit) {s : Symbol}
    (hs : s ∈ (l.contents src root).symbols) :
    s.lineStart < countLimit ∧ s.lineEnd < countLimit := by
  obtain ⟨d, hd, rfl⟩ := List.mem_map.mp hs
  obtain ⟨t, _, hspans⟩ := spans_of_mem_declared hd
  have hstart := Source.rowAt_le src t.start
  have hstop := Source.rowAt_le src t.stop
  rw [hspans.lineStart, hspans.lineEnd, Tree.startRow, Tree.stopRow]
  omega

theorem counts_lt_of_mem_calls (hsize : src.utf8ByteSize + 1 < countLimit)
    (hroot : root.CountsFit) {c : Call} (hc : c ∈ (l.contents src root).calls) :
    c.line < countLimit ∧ c.arguments < countLimit := by
  rw [l.calls_eq_map] at hc
  obtain ⟨⟨t, site⟩, hmem, rfl⟩ := List.mem_map.mp hc
  obtain ⟨ht, hsite⟩ := mem_callSites.mp hmem
  have hline := Source.rowAt_le src t.start
  refine ⟨?_, (describes_site _ hsite).counts.lt (by decide) fun s hs => hroot s ?_⟩
  · show Source.rowAt src t.start + 1 < countLimit
    omega
  · exact Tree.mem_nodes_trans (Tree.mem_nodes_of_mem_children hs)
      (root.exposed_sublist.subset ht)

end Language

namespace Outliner

variable {o : Outliner} {path : String}

theorem countsFit_outlineText {l : Language} {src : String}
    (hsize : src.utf8ByteSize + 1 < countLimit)
    (hgrammar : ∀ root, o.grammar l src = .ok root → root.CountsFit) :
    (o.outlineText path l src).CountsFit := by
  cases hroot : o.grammar l src with
  | error failure =>
    have hcontents : o.contents l src = .error failure := by
      rw [contents, hroot]
      rfl
    rw [outlineText, hcontents]
    exact (Outline.failed_failed ..).countsFit
  | ok root =>
    by_cases hunusable : root.Unusable src (o.settings.errorRatio l)
    · exact (outlineText_of_unusable hroot hunusable).countsFit
    · have hlines := Text.length_lines_le src
      rw [outlineText_of_usable hroot hunusable]
      refine ⟨?_, fun s hs => Language.lines_lt_of_mem_symbols hsize hs,
        fun c hc => Language.counts_lt_of_mem_calls hsize (hgrammar root hroot) hc⟩
      show (Text.lines src).length < countLimit
      omega

/-- A text that is read comes from a file that holds its bytes. -/
theorem exists_of_readText {files : FileTree} {src : String} (h : o.readText files path = .ok src) :
    ∃ text, files.get path = .ok (.file (Utf8.encode text)) ∧ src = dropOrderMark text := by
  cases hget : files.get path with
  | error fault => simp [readText, hget] at h
  | ok entry =>
    cases entry with
    | directory => simp [readText, hget] at h
    | file bytes =>
      by_cases hsize : o.settings.maxFileBytes < bytes.length
      · rw [readText_of_lt hget hsize] at h
        cases h
      · rw [readText_of_le hget (Nat.not_lt.mp hsize)] at h
        cases hdecode : Utf8.decode bytes with
        | error offset => simp [hdecode] at h
        | ok text =>
          rw [hdecode] at h
          rw [Utf8.decode_eq_ok_iff.mp hdecode]
          exact ⟨text, rfl, (Except.ok.inj h).symm⟩

/-- The counts of a file's outline fit, if its bytes and the nodes of its tree can be counted. -/
theorem countsFit_outlineFile {files : FileTree} {given : Option String}
    (hgrammar : ∀ l src root, o.grammar l src = .ok root → root.CountsFit)
    (hfile : ∀ bytes, files.get path = .ok (.file bytes) → bytes.length + 1 < countLimit) :
    (o.outlineFile files path given).CountsFit := by
  unfold outlineFile
  split
  · exact (Outline.failed_failed ..).countsFit
  · next l _ =>
    split
    · next src hread =>
      obtain ⟨text, hget, rfl⟩ := exists_of_readText hread
      have hbytes := hfile _ hget
      have hmark := utf8ByteSize_dropOrderMark_le text
      rw [Utf8.length_encode] at hbytes
      exact countsFit_outlineText (by omega) (hgrammar l _)
    · exact (Outline.failed_failed ..).countsFit

end Outliner

end CodeOutline
