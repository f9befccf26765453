import CodeOutline.Proofs.Outcomes
import CodeOutline.Proofs.SourceOrder
import CodeOutline.Proofs.Utf8

/-!
# Line numbers

The lines that symbols and calls are on are lines of the file.

**Theorem (`line_numbers_within_file`).** In the outline of a file whose tree is well nested and
lies inside the text, the lines of a symbol count from one and the last is not before the first. No
line is behind the end of the file, if the byte that decides it is a byte of the file: for a call
the first of its node, for a symbol the last one, which must not be a line feed.

Line numbers count line feeds, and the number of lines of a file counts the pieces between them, of
which the last is left out if it is empty. An offset inside the text is in one of these pieces
(`rowAt_lt_length_lines`). The offset at which a node ends need not be inside the text, but the byte
before it is, and both are on one row unless that byte is a line feed (`rowAt_succ`).
-/

namespace CodeOutline

open CodeOutline.Tree String

/-! ## Rows -/

theorem Utf8.encodeChar_feed : utf8EncodeChar '\n' = [10] := encodeChar_one (by decide)

/-- Only the line feed has the byte of the line feed in it. -/
theorem Utf8.feed_notMem_encodeChar {c : Char} (h : c ≠ '\n') : 10 ∉ utf8EncodeChar c := by
  have hbyte : ∀ n, n < 256 → n ≠ 10 → (10 : UInt8) ≠ UInt8.ofNat n := by
    intro n hn hne heq
    have htoNat := congrArg UInt8.toNat heq
    rw [toNat_ofNat_of_lt hn] at htoNat
    exact hne htoNat.symm
  have hlt := toNat_lt c
  by_cases hone : c.toNat < 0x80
  · have hne : c.toNat ≠ 10 := fun heq => h (Char.toNat_inj.mp heq)
    rw [encodeChar_one hone, List.mem_singleton]
    exact hbyte _ (by omega) hne
  by_cases htwo : c.toNat < 0x800
  · rw [encodeChar_two (by omega) htwo]
    simp only [List.mem_cons, List.not_mem_nil, not_or]
    exact ⟨hbyte _ (by omega) (by omega), hbyte _ (by omega) (by omega), not_false⟩
  by_cases hthree : c.toNat < 0x10000
  · rw [encodeChar_three (by omega) hthree]
    simp only [List.mem_cons, List.not_mem_nil, not_or]
    exact ⟨hbyte _ (by omega) (by omega), hbyte _ (by omega) (by omega),
      hbyte _ (by omega) (by omega), not_false⟩
  · rw [encodeChar_four (by omega)]
    simp only [List.mem_cons, List.not_mem_nil, not_or]
    exact ⟨hbyte _ (by omega) (by omega), hbyte _ (by omega) (by omega),
      hbyte _ (by omega) (by omega), hbyte _ (by omega) (by omega), not_false⟩

namespace Source

theorem rowFrom_eq_count (offset row pos : Nat) (cs : List Char) :
    rowFrom offset row pos cs =
      row + ((cs.flatMap utf8EncodeChar).take (offset - pos)).count 10 := by
  induction cs generalizing row pos with
  | nil => simp [rowFrom]
  | cons c cs ih =>
    rw [rowFrom, List.flatMap_cons]
    split
    · next hpos =>
      rw [ih, List.take_append, List.count_append, length_utf8EncodeChar, Nat.sub_sub]
      split
      · next hc =>
        have hfeed : (utf8EncodeChar '\n').take (offset - pos) = [10] := by
          rw [Utf8.encodeChar_feed, List.take_of_length_le]
          exact Nat.sub_pos_of_lt hpos
        rw [hc, hfeed]
        simp [Nat.add_assoc]
      · next hc =>
        have hnone : ((utf8EncodeChar c).take (offset - pos)).count 10 = 0 :=
          List.count_eq_zero_of_not_mem fun h =>
            Utf8.feed_notMem_encodeChar hc (List.mem_of_mem_take h)
        rw [hnone, Nat.zero_add]
    · next hpos =>
      rw [Nat.sub_eq_zero_of_le (Nat.not_lt.mp hpos), List.take_zero]
      rfl

/-- The row of an offset is the number of line feeds among the bytes before it. -/
theorem rowAt_eq_count (src : String) (offset : Nat) :
    rowAt src offset = ((Utf8.encode src).take offset).count 10 := by
  rw [rowAt, rowFrom_eq_count, Nat.zero_add]
  rfl

theorem rowAt_succ {src : String} {offset : Nat} (h : (Utf8.encode src)[offset]? ≠ some 10) :
    rowAt src (offset + 1) = rowAt src offset := by
  rw [rowAt_eq_count, rowAt_eq_count, List.take_add_one, List.count_append]
  have hnone : ((Utf8.encode src)[offset]?.toList).count 10 = 0 :=
    List.count_eq_zero_of_not_mem fun hmem => h (Option.mem_toList.mp hmem)
  rw [hnone, Nat.add_zero]

/-! ## Rows and lines -/

theorem length_linesFrom_cons (line : List Char) (c : Char) (cs : List Char) :
    (Chars.linesFrom line (c :: cs)).length =
      if c = '\n' then (Chars.linesFrom [] cs).length + 1
      else (Chars.linesFrom (c :: line) cs).length := by
  by_cases hc : c = '\n'
  · rw [if_pos hc]
    exact congrArg List.length (if_pos hc)
  · rw [if_neg hc]
    exact congrArg List.length (if_neg hc)

theorem length_linesFrom_pos (line : List Char) (c : Char) (cs : List Char) :
    0 < (Chars.linesFrom line (c :: cs)).length := by
  induction cs generalizing line c with
  | nil =>
    rw [length_linesFrom_cons]
    split
    · exact Nat.succ_pos _
    · exact Nat.one_pos
  | cons d cs ih =>
    rw [length_linesFrom_cons]
    split
    · exact Nat.succ_pos _
    · exact ih (c :: line) d

/-- An offset inside the rest of a text is on one of its lines. The current line has begun if the
rest begins behind the offset. -/
theorem rowFrom_lt_length_linesFrom (offset row pos : Nat) (line cs : List Char)
    (hoffset : offset < pos + (cs.flatMap utf8EncodeChar).length)
    (hline : line = [] → pos ≤ offset) :
    rowFrom offset row pos cs < row + (Chars.linesFrom line cs).length := by
  induction cs generalizing row pos line with
  | nil =>
    have hbegun : line ≠ [] := fun h => absurd hoffset (Nat.not_lt.mpr (hline h))
    have hlast : Chars.linesFrom line [] = [line.reverse] := if_neg (by simpa using hbegun)
    rw [rowFrom, hlast]
    exact Nat.lt_succ_self row
  | cons c cs ih =>
    rw [List.flatMap_cons, List.length_append, length_utf8EncodeChar, ← Nat.add_assoc] at hoffset
    rw [rowFrom]
    split
    · next hpos =>
      rw [length_linesFrom_cons]
      split
      · next hc =>
        have hsize : c.utf8Size = 1 := hc ▸ rfl
        have hrest := ih (row + 1) _ [] hoffset fun _ => hsize ▸ hpos
        omega
      · exact ih row _ (c :: line) hoffset fun h => absurd h (List.cons_ne_nil c line)
    · exact Nat.lt_add_of_pos_right (length_linesFrom_pos line c cs)

/-- An offset inside a text is on one of its lines. -/
theorem rowAt_lt_length_lines {src : String} {offset : Nat} (h : offset < src.utf8ByteSize) :
    rowAt src offset < (Text.lines src).length := by
  rw [← Utf8.length_encode, Utf8.encode, ← Nat.zero_add (List.length _)] at h
  have hlt := rowFrom_lt_length_linesFrom offset 0 0 [] src.toList h fun _ => Nat.zero_le offset
  rw [Nat.zero_add] at hlt
  rw [Text.lines, List.length_map]
  exact hlt

end Source

/-! ## Lines of a file -/

open Source Outliner

section Nodes

variable {src : String} {t : Tree}

theorem startRow_lt_length_lines (hfilled : t.start < t.stop) (hstop : t.stop ≤ src.utf8ByteSize) :
    t.startRow src < (Text.lines src).length :=
  rowAt_lt_length_lines (Nat.lt_of_lt_of_le hfilled hstop)

/-- A node ends on the row of its last byte, unless that is a line feed. -/
theorem stopRow_lt_length_lines (hfilled : t.start < t.stop)
    (hlast : (Utf8.encode src)[t.stop - 1]? ≠ some 10) (hstop : t.stop ≤ src.utf8ByteSize) :
    t.stopRow src < (Text.lines src).length := by
  have hend : t.stop - 1 + 1 = t.stop := Nat.sub_add_cancel (Nat.zero_lt_of_lt hfilled)
  have hrow := rowAt_succ hlast
  rw [hend] at hrow
  rw [stopRow, hrow]
  exact rowAt_lt_length_lines (Nat.lt_of_lt_of_le (Nat.lt_of_succ_le hend.le) hstop)

end Nodes

/-- **Line numbers.** The outline of a file whose tree is well nested and lies inside the text gives
lines of the file only, unless a node is empty or ends with a line feed. -/
theorem line_numbers_within_file (o : Outliner) (path source id : String) {l : Language}
    {root : Tree} (hl : Language.ofName? id = some l)
    (hroot : o.grammar l (dropOrderMark source) = .ok root) (hwell : root.WellNested)
    (hinside : root.stop ≤ (dropOrderMark source).utf8ByteSize)
    (hok : (o.outlineSource path source id).error = none) :
    let src := dropOrderMark source
    let outline := o.outlineSource path source id
    outline.contents.symbols = (l.dialect.declared src root).map (·.symbol) ∧
    (∀ d ∈ l.dialect.declared src root, ∃ t ∈ root.nodes, d.Spans src t ∧
      1 ≤ d.symbol.lineStart ∧ d.symbol.lineStart ≤ d.symbol.lineEnd ∧
      (t.start < t.stop → (Utf8.encode src)[t.stop - 1]? ≠ some 10 →
        d.symbol.lineEnd ≤ outline.lineCount)) ∧
    List.Forall₂
      (fun t call => call.line = t.startRow src + 1 ∧ 1 ≤ call.line ∧
        (t.start < t.stop → call.line ≤ outline.lineCount))
      (root.exposed.filter fun t => (l.callSite? src root t).isSome)
      outline.contents.calls := by
  intro src outline
  have houtline : outline = { path, language := l.name, contents := l.contents src root
                              lineCount := (Text.lines src).length } :=
    outlineSource_of_error_eq_none hl hroot hok
  have hstop : ∀ t ∈ root.nodes, t.stop ≤ src.utf8ByteSize := fun t ht =>
    Nat.le_trans (hwell.encloses ht).2 hinside
  rw [houtline]
  refine ⟨rfl, fun d hd => ?_, ?_⟩
  · obtain ⟨t, ht, hspans⟩ := Language.spans_of_mem_declared hd
    refine ⟨t, ht, hspans, ?_, ?_, fun hfilled hlast => ?_⟩
    · rw [hspans.lineStart]
      exact Nat.succ_pos _
    · rw [hspans.lineStart, hspans.lineEnd]
      exact Nat.succ_le_succ (rowAt_mono src (hwell.of_mem ht).start_le_stop)
    · rw [hspans.lineEnd]
      exact stopRow_lt_length_lines hfilled hlast (hstop t ht)
  · refine l.forall₂_calls.imp ?_
    rintro t call ⟨ht, site, _, hline, _⟩
    rw [hline]
    exact ⟨rfl, Nat.succ_pos _, fun hfilled => startRow_lt_length_lines hfilled (hstop t ht)⟩

/-- A routine `f` over two lines, with a call of `g` in the second. -/
def routineWithCall : Tree :=
  .node ⟨"module", true, false, false, none, 0, 13⟩
    [.node ⟨"function_definition", true, false, false, none, 0, 12⟩
      [.node ⟨"identifier", true, false, false, some "name", 4, 5⟩ [],
        .node ⟨"block", true, false, false, some "body", 9, 12⟩
          [.node ⟨"call", true, false, false, none, 9, 12⟩
            [.node ⟨"identifier", true, false, false, some "function", 9, 10⟩ []]]]]

/-- The text begins with an order mark and ends with a line feed, so it has two lines. The routine
ends on the second, where the call is. -/
theorem lineNumbers_routineWithCall :
    let source := "\ufeffdef f():\ng()\n"
    let src := dropOrderMark source
    let o : Outliner := { grammar := fun _ _ => .ok routineWithCall }
    let outline := o.outlineSource "a.py" source "python"
    outline.error = none ∧ outline.lineCount = 2 ∧
      outline.contents.symbols.map (fun s => (s.name, s.lineStart, s.lineEnd)) = [("f", 1, 2)] ∧
      List.Forall₂
        (fun t call => call.line = t.startRow src + 1 ∧ 1 ≤ call.line ∧
          (t.start < t.stop → call.line ≤ outline.lineCount))
        (routineWithCall.exposed.filter fun t =>
          (Language.python.callSite? src routineWithCall t).isSome)
        outline.contents.calls := by
  intro source src o outline
  have hwell : routineWithCall.WellNested := by decide
  have hinside : routineWithCall.stop ≤ src.utf8ByteSize := by decide +kernel
  have hok : outline.error = none := by decide +kernel
  have hlines := line_numbers_within_file o "a.py" source "python" rfl rfl hwell hinside hok
  exact ⟨hok, by decide +kernel, by decide +kernel, hlines.2.2⟩

end CodeOutline
