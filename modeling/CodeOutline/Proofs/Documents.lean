import CodeOutline.Document.Reader
import CodeOutline.Document.Writer
import CodeOutline.Proofs.Json.Reading

/-!
# Documents are read back

An outline is written as a record of records. Each kind of record has a writer and a reader, and
reading what was written gives the record back, one lemma for each kind. A dictionary is read back
because its entries stand in increasing order, so that adding them one by one rebuilds the list.

**Theorem (`documents_read_back`).** In both layouts, the document of an outline is read as that
outline, and the document of a list of outlines as that list, if all counts are below `2 ^ 64`.
-/

namespace CodeOutline

/-! ## Dictionaries -/

namespace Dictionary

theorem insertEntry_of_forall_lt {key value : String} {entries : List (String × String)}
    (h : ∀ e ∈ entries, e.1 < key) : insertEntry key value entries = entries ++ [(key, value)] := by
  induction entries with
  | nil => rfl
  | cons entry rest ih =>
    have hlt := h entry List.mem_cons_self
    rw [insertEntry, if_neg (String.lt_asymm hlt), if_pos hlt,
      ih fun e he => h e (List.mem_cons_of_mem _ he), List.cons_append]

theorem entries_foldl_insert {d : Dictionary} {entries : List (String × String)}
    (h : Increasing (d.entries ++ entries)) :
    (entries.foldl (fun d e => d.insert e.1 e.2) d).entries = d.entries ++ entries := by
  induction entries generalizing d with
  | nil => simp
  | cons e rest ih =>
    have hlast : (d.insert e.1 e.2).entries = d.entries ++ [e] :=
      insertEntry_of_forall_lt fun x hx => (List.pairwise_append.mp h).2.2 x hx e List.mem_cons_self
    rw [List.append_cons, ← hlast] at h
    rw [List.foldl_cons, ih h, hlast, List.append_assoc, List.singleton_append]

theorem eq_of_entries_eq {d e : Dictionary} (h : d.entries = e.entries) : d = e := by
  obtain ⟨entries, hd⟩ := d
  obtain ⟨others, he⟩ := e
  cases h
  rfl

/-- The entries of a dictionary make this dictionary. -/
theorem ofList_entries (d : Dictionary) : ofList d.entries = d :=
  eq_of_entries_eq (entries_foldl_insert (d := empty) d.increasing)

end Dictionary

/-! ## Fields -/

namespace Record

theorem entries?_map_some (entries : List (String × Json)) :
    entries? (entries.map fun (key, value) => (some key, value)) = some entries := by
  induction entries with
  | nil => rfl
  | cons e entries ih =>
    rw [entries?] at ih
    simp [entries?, ih]

theorem slots?_record (keys : List String) (entries : List (String × Json)) :
    slots? keys (.record entries) = keys.mapM (slot? entries) := by
  rw [Json.record, slots?, entries?_map_some, Option.bind_some]

@[simp] theorem text?_text (s : String) : text? (.text s) = some s := rfl

@[simp] theorem optional_text? (o : Option String) : optional text? (some (.text? o)) = some o := by
  cases o <;> rfl

theorem nat?_toString (n : Nat) : Decimal.nat? (toString n) = some n := by
  have hdigits : ∀ c ∈ Nat.toDigits 10 n, Decimal.isDigit c = true :=
    fun c => Json.isDigit_of_mem_toDigits
  have hvalue : Decimal.ofDigits (Nat.toDigits 10 n) = n := Nat.ofDigitChars_ten_toDigits
  rw [Nat.toString_eq_ofList_toDigits, Decimal.nat?, String.toList_ofList]
  cases hds : Nat.toDigits 10 n with
  | nil => exact absurd hds Nat.toDigits_ne_nil
  | cons d ds =>
    rw [hds] at hdigits hvalue
    have hd : d ≠ '+' := by
      rintro rfl
      exact absurd (hdigits '+' List.mem_cons_self) (by decide)
    have hall : (d :: ds).all Decimal.isDigit = true := List.all_eq_true.mpr hdigits
    simp [hd, hall, hvalue]

theorem count?_nat {n : Nat} (h : n < countLimit) : count? (.nat n) = some n := by
  rw [Json.nat, count?, nat?_toString, Option.filter_some, if_pos (by simpa using h)]

theorem list?_map {α : Type} {read : Json → Option α} {write : α → Json} {xs : List α}
    (h : ∀ x ∈ xs, read (write x) = some x) : list? read (.array (xs.map write)) = some xs := by
  rw [list?]
  induction xs with
  | nil => rfl
  | cons x xs ih =>
    simp [h x List.mem_cons_self, ih fun y hy => h y (List.mem_cons_of_mem _ hy)]

theorem choice?_symbolKind (k : SymbolKind) :
    choice? SymbolKind.ofName? (.text k.name) = some k := by
  cases k <;> decide

theorem choice?_callKind (k : CallKind) : choice? CallKind.ofName? (.text k.name) = some k := by
  cases k <;> decide

theorem dictionary?_entries (d : Dictionary) :
    dictionary? (.record (d.entries.map fun (key, value) => (key, .text value))) = some d := by
  have htexts : ∀ entries : List (String × String),
      (entries.map fun (key, value) => (key, Json.text value)).mapM
        (fun (key, value) => (text? value).map fun t => (key, t)) = some entries := by
    intro entries
    induction entries with
    | nil => rfl
    | cons e entries ih => simp [ih]
  rw [Json.record, dictionary?, entries?_map_some]
  simp [htexts, Dictionary.ofList_entries]

end Record

open Record

/-! ## Records -/

theorem Mark.ofJson?_toJson (m : Mark) : Mark.ofJson? m.toJson = some m := by
  have hslots : slots? ["name", "arguments"] m.toJson = some [some (.text m.name),
      some (.record (m.arguments.entries.map fun (key, value) => (key, .text value)))] := by
    rw [toJson, slots?_record]
    rfl
  simp [ofJson?, hslots, required, withDefault, dictionary?_entries]

theorem Symbol.ofJson?_toJson {s : Symbol} (h : s.lineStart < countLimit ∧ s.lineEnd < countLimit) :
    Symbol.ofJson? s.toJson = some s := by
  have hslots : slots? ["name", "kind", "signature", "docstring", "line_start", "line_end",
      "annotations"] s.toJson = some [some (.text s.name), some (.text s.kind.name),
        some (.text s.signature), some (.text? s.docstring), some (.nat s.lineStart),
        some (.nat s.lineEnd), some (.array (s.marks.map Mark.toJson))] := by
    rw [toJson, slots?_record]
    rfl
  have hmarks := list?_map fun m (_ : m ∈ s.marks) => m.ofJson?_toJson
  simp [ofJson?, hslots, required, withDefault, choice?_symbolKind, count?_nat h.1,
    count?_nat h.2, hmarks]

theorem Import.ofJson?_toJson (i : Import) : Import.ofJson? i.toJson = some i := by
  have hslots : slots? ["module", "names", "is_from", "alias"] i.toJson =
      some [some (.text i.path), some (.array (i.names.map Json.text)), some (.bool i.isFrom),
        some (.text? i.asName)] := by
    rw [toJson, slots?_record]
    rfl
  have hnames := list?_map fun n (_ : n ∈ i.names) => text?_text n
  simp [ofJson?, hslots, required, withDefault, bool?, hnames]

theorem Inheritance.ofJson?_toJson (i : Inheritance) : Inheritance.ofJson? i.toJson = some i := by
  have hslots : slots? ["child", "parent"] i.toJson =
      some [some (.text i.child), some (.text i.parent)] := by
    rw [toJson, slots?_record]
    rfl
  simp [ofJson?, hslots, required]

theorem Call.ofJson?_toJson {c : Call} (h : c.line < countLimit ∧ c.arguments < countLimit) :
    Call.ofJson? c.toJson = some c := by
  have hslots : slots? ["caller", "callee", "line_number", "call_type", "arguments_count"]
      c.toJson = some [some (.text c.caller), some (.text? c.callee), some (.nat c.line),
        some (.text c.kind.name), some (.nat c.arguments)] := by
    rw [toJson, slots?_record]
    rfl
  simp [ofJson?, hslots, required, choice?_callKind, count?_nat h.1, count?_nat h.2]

namespace Outline

/-- All counts in the outline are below `countLimit`, which is `2 ^ 64`. -/
structure CountsFit (o : Outline) : Prop where
  lineCount : o.lineCount < countLimit
  symbols : ∀ s ∈ o.contents.symbols, s.lineStart < countLimit ∧ s.lineEnd < countLimit
  calls : ∀ c ∈ o.contents.calls, c.line < countLimit ∧ c.arguments < countLimit

theorem slots?_toJson (o : Outline) :
    slots? ["path", "language", "symbols", "imports", "inheritances", "calls",
      "module_docstring", "namespace", "error", "file_lines"] o.toJson =
      some [some (.text o.path), some (.text o.language),
        some (.array (o.contents.symbols.map Symbol.toJson)),
        some (.array (o.contents.imports.map Import.toJson)),
        some (.array (o.contents.inheritances.map Inheritance.toJson)),
        some (.array (o.contents.calls.map Call.toJson)), some (.text? o.contents.docstring),
        some (.text o.contents.package), o.error.map Json.text, some (.nat o.lineCount)] := by
  rw [toJson, slots?_record]
  cases o.error <;> rfl

theorem ofJson?_toJson {o : Outline} (h : o.CountsFit) : ofJson? o.toJson = some o := by
  have hsymbols := list?_map fun s hs => Symbol.ofJson?_toJson (h.symbols s hs)
  have himports := list?_map fun i (_ : i ∈ o.contents.imports) => i.ofJson?_toJson
  have hinheritances := list?_map fun i (_ : i ∈ o.contents.inheritances) => i.ofJson?_toJson
  have hcalls := list?_map fun c hc => Call.ofJson?_toJson (h.calls c hc)
  have herror : optional text? (o.error.map Json.text) = some o.error := by
    cases o.error <;> rfl
  simp [ofJson?, slots?_toJson, required, withDefault, hsymbols, himports, hinheritances, hcalls,
    herror, count?_nat h.lineCount]

end Outline

/-! ## Written records are plain -/

namespace Json

theorem plain_text? (o : Option String) : (text? o).Plain := by
  cases o with
  | none => exact .null
  | some s => exact .text s

theorem plain_array_map {α : Type} {write : α → Json} (h : ∀ x, (write x).Plain) (xs : List α) :
    (array (xs.map write)).Plain := by
  refine .array fun item hitem => ?_
  obtain ⟨x, _, rfl⟩ := List.mem_map.mp hitem
  exact h x

end Json

open Json

theorem Mark.plain_toJson (m : Mark) : m.toJson.Plain := by
  refine .record (List.forall_mem_cons.mpr ⟨.text _, List.forall_mem_singleton.mpr ?_⟩)
  refine .record fun e he => ?_
  obtain ⟨entry, _, rfl⟩ := List.mem_map.mp he
  exact .text _

theorem Symbol.plain_toJson (s : Symbol) : s.toJson.Plain := by
  have hmarks := plain_array_map Mark.plain_toJson s.marks
  exact .record (by simp [plain_text?, hmarks, Plain.text, Plain.nat])

theorem Import.plain_toJson (i : Import) : i.toJson.Plain := by
  have hnames := plain_array_map Plain.text i.names
  exact .record (by simp [plain_text?, hnames, Plain.text, Plain.bool])

theorem Inheritance.plain_toJson (i : Inheritance) : i.toJson.Plain :=
  .record (by simp [Plain.text])

theorem Call.plain_toJson (c : Call) : c.toJson.Plain :=
  .record (by simp [plain_text?, Plain.text, Plain.nat])

theorem Outline.plain_toJson (o : Outline) : o.toJson.Plain := by
  have hsymbols := plain_array_map Symbol.plain_toJson o.contents.symbols
  have himports := plain_array_map Import.plain_toJson o.contents.imports
  have hinheritances := plain_array_map Inheritance.plain_toJson o.contents.inheritances
  have hcalls := plain_array_map Call.plain_toJson o.contents.calls
  refine .record fun e he => ?_
  simp only [List.mem_append, List.mem_map, List.mem_singleton] at he
  rcases he with (he | ⟨error, _, rfl⟩) | rfl
  · revert e
    simp [plain_text?, hsymbols, himports, hinheritances, hcalls, Plain.text]
  · exact .text error
  · exact .nat _

/-! ## Documents -/

/-- **Documents are read back.** What is written of an outline or of a list of outlines, in either
layout, is read as that outline or list, as long as all counts are below `2 ^ 64`. -/
theorem documents_read_back {layout : Layout} (hlayout : layout = .compact ∨ layout = .indented) :
    (∀ o : Outline, o.CountsFit → Outline.ofDocument? (o.document layout) = some o) ∧
      ∀ os : List Outline, (∀ o ∈ os, o.CountsFit) →
        Outline.ofBatchDocument? (Outline.batchDocument layout os) = some os := by
  have hblank : layout.IsBlank := by
    rcases hlayout with rfl | rfl
    · exact Layout.compact_isBlank
    · exact Layout.indented_isBlank
  constructor
  · intro o h
    rw [Outline.ofDocument?, Outline.document, o.plain_toJson.parse?_write hblank,
      Option.bind_some]
    exact Outline.ofJson?_toJson h
  · intro os h
    have hplain := plain_array_map Outline.plain_toJson os
    rw [Outline.ofBatchDocument?, Outline.batchDocument, hplain.parse?_write hblank,
      Option.bind_some]
    exact list?_map fun o ho => Outline.ofJson?_toJson (h o ho)

/-- An outline whose texts need escapes and whose counts are the largest. -/
def escapedOutline : Outline where
  path := "a\\b \"c\".py"
  contents := {
    symbols := [{
      name := "f", kind := .function, signature := "def f(): \t# \x00\x1f", docstring := some "😀\n"
      lineStart := countLimit - 1, lineEnd := countLimit - 1
      marks := [{ name := "mark", arguments := ⟨[("0", "\"x\""), ("k", "\u007f")], by decide⟩ }] }]
    calls := [{
      caller := "f", callee := none, line := countLimit - 1, kind := .dynamic, arguments := 0 }] }
  error := some "/ \x08\x0c\r"

theorem escapedOutline_read_back :
    Outline.ofDocument? (escapedOutline.document .indented) = some escapedOutline ∧
      Outline.ofBatchDocument? (Outline.batchDocument .compact [escapedOutline, { path := "" }]) =
        some [escapedOutline, { path := "" }] := by
  have hfit : escapedOutline.CountsFit := ⟨by decide, by decide, by decide⟩
  have hempty : Outline.CountsFit { path := "" } := ⟨by decide, by simp, by simp⟩
  refine ⟨(documents_read_back (.inr rfl)).1 _ hfit, (documents_read_back (.inl rfl)).2 _ ?_⟩
  simp [hfit, hempty]

end CodeOutline
