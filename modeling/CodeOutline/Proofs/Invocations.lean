import CodeOutline.CommandLine.Invocation
import CodeOutline.Proofs.Affixes

/-!
# Command lines that name files

What the words of a command line ask for, as long as files are all that they name besides the
project and the compact layout. The option for the latter may stand anywhere among the files
(`WithCompact`), and the project may be given in several ways (`GivesProject`).

`command?_batch` and `command?_parse` read the words after the command, and `invocation?_eq` those
before it. Both rest on what the scan does with a run of files (`scan_append`).
-/

namespace CodeOutline.CommandLine

/-! ## Words -/

/-- The word names a file and cannot be taken for an option. -/
structure NamesFile (word : String) : Prop where
  ne_empty : word ≠ ""
  first : word.toList.head? ≠ some '-'

theorem NamesFile.isOption_eq_false {word : String} (h : NamesFile word) :
    isOption word = false := by
  have hstart : Text.startsWith "-" word = false := by
    rw [Text.startsWith, Bool.eq_false_iff, ne_eq, List.isPrefixOf_iff_prefix]
    rintro ⟨rest, hrest⟩
    apply h.first
    rw [← hrest]
    rfl
  rw [isOption, hstart, Bool.false_and]

theorem NamesFile.ne_dashes {word : String} (h : NamesFile word) : word ≠ "--" := by
  rintro rfl
  exact h.first rfl

/-- The words, with the option for the compact layout somewhere among them if it is set. -/
inductive WithCompact : (words : List String) → Bool → List String → Prop
  | unset (words : List String) : WithCompact words false words
  | set (before after : List String) :
      WithCompact (before ++ after) true (before ++ "--compact" :: after)

/-- The words before a command, and the project that they give. -/
inductive GivesProject : List String → Option String → Prop
  | none : GivesProject [] none
  | apart {option root : String} : option ∈ ["--project", "-p"] → root ≠ "" →
      isOption root = false → GivesProject [option, root] (some root)
  | joined {root : String} : root ≠ "" → GivesProject ["--project=" ++ root] (some root)

/-! ## Options -/

namespace Key

theorem eq_of_name_eq {j k : Key} (h : j.name = k.name) : j = k := by
  cases j <;> cases k <;> simp [name] at h ⊢

/-- An option is found by its name. -/
theorem find?_name {keys : List Key} {k : Key} (h : k ∈ keys) :
    keys.find? (fun j => j.name == k.name) = some k := by
  have hsome : (keys.find? fun j => j.name == k.name).isSome = true :=
    List.find?_isSome.mpr ⟨k, h, beq_self_eq_true _⟩
  obtain ⟨found, hfound⟩ := Option.isSome_iff_exists.mp hsome
  have hname := List.find?_some hfound
  rw [hfound, eq_of_name_eq (beq_iff_eq.mp hname)]

end Key

theorem option?_joinedProject (root : String) :
    option? [.project] ("--project=" ++ root) = some (.project, some root) := by
  have hbody : Text.afterStart? "--" ("--project=" ++ root) = some ("project=" ++ root) := by
    have hafter : Chars.after? "--".toList ("--project=" ++ root).toList =
        some ("project=" ++ root).toList := Chars.after?_eq_some_iff.mpr (by simp)
    rw [Text.afterStart?, hafter, Option.map_some, String.ofList_toList]
  have hcut : Text.cut? "=" ("project=" ++ root) = some ("project", root) := by
    have hchars : ("project=" ++ root).toList = "project".toList ++ '=' :: root.toList := by simp
    rw [Text.cut?, hchars]
    simp [Chars.cut?, Chars.after?]
  simp [option?, hbody, long?, hcut, Key.name]

/-! ## After the command -/

section Scan

variable {keys : List Key} {words written : List String} {compact : Bool}

/-- Names of files are collected. -/
theorem scan_append (h : ∀ word ∈ words, NamesFile word) (g : Given) (rest : List String) :
    scan keys g (words ++ rest) = scan keys { g with words := words.reverse ++ g.words } rest := by
  induction words generalizing g with
  | nil => rfl
  | cons word words ih =>
    have hword := h word List.mem_cons_self
    have hrest := ih (fun other hother => h other (List.mem_cons_of_mem word hother))
      { g with words := word :: g.words }
    rw [List.cons_append, scan, if_neg (by simp [hword.isOption_eq_false]), hrest]
    · simp
    · exact hword.ne_dashes

theorem option?_compact (h : .compact ∈ keys) :
    option? keys "--compact" = some (.compact, none) := by
  have hbody : Text.afterStart? "--" "--compact" = some "compact" := by decide +kernel
  have hcut : Text.cut? "=" "compact" = none := by decide +kernel
  have hfind : keys.find? (fun k => k.name == "compact") = some .compact := Key.find?_name h
  simp [option?, hbody, long?, hcut, hfind]

/-- The option for the compact layout is noted. -/
theorem scan_compact (h : .compact ∈ keys) {g : Given} (hg : g.has .compact = false)
    (rest : List String) :
    scan keys g ("--compact" :: rest) =
      scan keys { g with values := (.compact, "true") :: g.values } rest := by
  have hoption : isOption "--compact" = true := by decide +kernel
  rw [scan, if_pos hoption, option?_compact h]
  · simp [Key.takesValue, Given.add?, hg, Key.admits]
  · decide

/-- What the scan of files gives. -/
def filesGiven (words : List String) (compact : Bool) : Given where
  values := if compact then [(.compact, "true")] else []
  words := words.reverse

theorem scan_withCompact (hkeys : .compact ∈ keys) (hwords : ∀ word ∈ words, NamesFile word)
    (h : WithCompact words compact written) :
    scan keys {} written = some (filesGiven words compact) := by
  cases h with
  | unset words =>
    have hscan : scan keys {} (words ++ []) = _ := scan_append hwords {} []
    rw [List.append_nil] at hscan
    rw [hscan]
    simp [scan, filesGiven]
  | set before after =>
    obtain ⟨hbefore, hafter⟩ := List.forall_mem_append.mp hwords
    have hscan : scan keys { values := [(.compact, "true")], words := before.reverse }
        (after ++ []) = _ := scan_append hafter _ []
    rw [List.append_nil] at hscan
    rw [scan_append hbefore, scan_compact hkeys rfl]
    simp only [List.append_nil]
    rw [hscan]
    simp [scan, filesGiven]

/-- Files may be named together. -/
theorem command?_batch (hne : words ≠ []) (hwords : ∀ word ∈ words, NamesFile word)
    (h : WithCompact words compact written) :
    command? "batch" written = some (.batch words compact none, none) := by
  have hscan : scan [.project, .output, .compact] {} written = _ :=
    scan_withCompact (by decide) hwords h
  have hnone : "" ∉ words := fun hempty => (hwords "" hempty).ne_empty rfl
  cases compact <;> simp [command?, hscan, filesGiven, hne, hnone, Given.has, Given.value?]

/-- A file may be named alone. -/
theorem command?_parse {file : String} (hfile : NamesFile file)
    (h : WithCompact [file] compact written) :
    command? "parse" written = some (.parse file none compact none, none) := by
  have hscan : scan [.project, .lang, .output, .compact] {} written = _ :=
    scan_withCompact (by decide) (List.forall_mem_singleton.mpr hfile) h
  cases compact <;> simp [command?, hscan, filesGiven, hfile.ne_empty, Given.has, Given.value?]

end Scan

/-! ## Before the command -/

/-- The words before a command give the project, and those after it the command. -/
theorem invocation?_eq {before after : List String} {project : Option String} {name : String}
    {command : Command} (h : GivesProject before project) (hname : isOption name = false)
    (hcommand : command? name after = some (command, none)) :
    invocation? (before ++ name :: after) = some { command, project } := by
  have hrest (g : Given) :
      invocationFrom g (name :: after) = some { command, project := g.value? .project } := by
    unfold invocationFrom
    simp [hname, hcommand]
  cases h with
  | none => exact hrest {}
  | @apart option root hoption hne hroot =>
    have hdashes : isOption option = true ∧ option? [.project] option = some (.project, none) := by
      simp only [List.mem_cons, List.not_mem_nil, or_false] at hoption
      rcases hoption with rfl | rfl <;> decide +kernel
    rw [invocation?, List.cons_append, List.cons_append, List.nil_append]
    unfold invocationFrom
    simp [hdashes, hroot, hne, Given.add?, Given.has, Key.admits, hrest, Given.value?]
  | @joined root hne =>
    have hdashes : isOption ("--project=" ++ root) = true := by
      rw [isOption, Bool.and_eq_true]
      constructor
      · rw [Text.startsWith, List.isPrefixOf_iff_prefix]
        exact ⟨"-project=".toList ++ root.toList, by simp⟩
      · rw [bne_iff_ne]
        intro heq
        simpa using congrArg (fun word => word.toList.length) heq
    rw [invocation?, List.cons_append, List.nil_append]
    unfold invocationFrom
    simp [hdashes, option?_joinedProject, hne, Given.add?, Given.has, Key.admits, hrest,
      Given.value?]

end CodeOutline.CommandLine
