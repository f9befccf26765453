import CodeOutline.CommandLine.Basic
import CodeOutline.Proofs.Counts
import CodeOutline.Proofs.Invocations

/-!
# Files in a batch and alone

**Theorem (`batch_agrees_with_single`).** A command that outlines a batch of files succeeds, and
what it prints is read as one outline for each file, in order. The outline of a file is the one read
from what a command for this file alone prints, be either layout compact or not, and whether or not
there is something wrong with this file or with others.

Both commands come down to `Outliner.outlineFile`, so what is left is that the words ask for it
(`Invocations`) and that documents are read back with the line feed that is printed after them,
which asks that the counts in outlines fit (`Counts`).
-/

namespace CodeOutline.CommandLine

open Json

/-! ## What is printed -/

theorem lines_singleton (document : String) : lines [document] = document ++ "\n" := by
  simp [lines]

theorem isBlank_layout (compact : Bool) : (layout compact).IsBlank := by
  cases compact with
  | false => exact Layout.indented_isBlank
  | true => exact Layout.compact_isBlank

theorem parse?_lines {v : Json} (h : v.Plain) (compact : Bool) :
    parse? (lines [v.write (layout compact)]) = some v := by
  rw [lines_singleton]
  exact h.parse?_write_append (isBlank_layout compact) "\n" (by simp [isSpace])

/-- The outline of a file is read back from what is printed of it. -/
theorem ofDocument?_lines {outline : Outline} (h : outline.CountsFit) (compact : Bool) :
    Outline.ofDocument? (lines [outline.document (layout compact)]) = some outline := by
  rw [Outline.ofDocument?, Outline.document, parse?_lines outline.plain_toJson, Option.bind_some]
  exact Outline.ofJson?_toJson h

/-- The outlines of a batch are read back from what is printed of them. -/
theorem ofBatchDocument?_lines {outlines : List Outline} (h : ∀ o ∈ outlines, o.CountsFit)
    (compact : Bool) :
    Outline.ofBatchDocument? (lines [Outline.batchDocument (layout compact) outlines]) =
      some outlines := by
  have hplain := plain_array_map Outline.plain_toJson outlines
  rw [Outline.ofBatchDocument?, Outline.batchDocument, parse?_lines hplain, Option.bind_some]
  exact Record.list?_map fun o ho => Outline.ofJson?_toJson (h o ho)

/-! ## What is run -/

section Run

variable {w : Surroundings} {settings : Settings} {before written : List String}
  {project : Option String} {compact : Bool}

/-- A command that the words make runs with the settings of the project that they give. -/
theorem run_eq_perform {name : String} {after : List String} {command : Command}
    (hproject : GivesProject before project)
    (hload : Settings.load w.files w.env (project.getD ".") = .ok settings)
    (hname : isOption name = false) (hcommand : command? name after = some (command, none)) :
    run w (before ++ name :: after) = perform w settings command := by
  rw [run, invocation?_eq hproject hname hcommand]
  simp only [hload]

theorem run_batch {files : List String} (hproject : GivesProject before project)
    (hload : Settings.load w.files w.env (project.getD ".") = .ok settings) (hne : files ≠ [])
    (hfiles : ∀ file ∈ files, NamesFile file) (hwritten : WithCompact files compact written) :
    run w (before ++ "batch" :: written) = perform w settings (.batch files compact none) :=
  run_eq_perform hproject hload rfl (command?_batch hne hfiles hwritten)

theorem run_parse {file : String} (hproject : GivesProject before project)
    (hload : Settings.load w.files w.env (project.getD ".") = .ok settings)
    (hfile : NamesFile file) (hwritten : WithCompact [file] compact written) :
    run w (before ++ "parse" :: written) = perform w settings (.parse file none compact none) :=
  run_eq_perform hproject hload rfl (command?_parse hfile hwritten)

end Run

/-! ## Batches -/

/-- **Batches.** Take a project whose settings load, and some files, named by words that cannot be
taken for options. The command for all of them succeeds, and what it prints is read as one outline
for each. This is also the one that is read from what the command for the file alone prints, which
succeeds as well. The bytes of the files and the children of nodes are assumed to be countable. -/
theorem batch_agrees_with_single (w : Surroundings) {settings : Settings} {before : List String}
    {project : Option String} (hproject : GivesProject before project)
    (hload : Settings.load w.files w.env (project.getD ".") = .ok settings)
    (hgrammar : ∀ l src root, w.grammar l src = .ok root → root.CountsFit) {files : List String}
    (hne : files ≠ []) (hfiles : ∀ file ∈ files, NamesFile file)
    (hsizes : ∀ file ∈ files, ∀ bytes, w.files.get file = .ok (.file bytes) →
      bytes.length + 1 < Record.countLimit)
    {compact : Bool} {written : List String} (hwritten : WithCompact files compact written) :
    let batch := run w (before ++ "batch" :: written)
    batch.exitCode = 0 ∧ ∃ outlines, Outline.ofBatchDocument? batch.stdout = some outlines ∧
      List.Forall₂
        (fun file outline => ∀ compact written, WithCompact [file] compact written →
          let single := run w (before ++ "parse" :: written)
          single.exitCode = 0 ∧ Outline.ofDocument? single.stdout = some outline)
        files outlines := by
  intro batch
  let outliner : Outliner := { grammar := w.grammar, settings }
  have hfit : ∀ file ∈ files, (outliner.outlineFile w.files file none).CountsFit :=
    fun file hfile => Outliner.countsFit_outlineFile hgrammar (hsizes file hfile)
  have hbatch : batch = perform w settings (.batch files compact none) :=
    run_batch hproject hload hne hfiles hwritten
  rw [hbatch]
  refine ⟨rfl, outliner.outlineFiles w.files files, ?_, ?_⟩
  · apply ofBatchDocument?_lines
    intro o ho
    obtain ⟨file, hfile, rfl⟩ := List.mem_map.mp ho
    exact hfit file hfile
  · rw [Outliner.outlineFiles, List.forall₂_map_right_iff, List.forall₂_same]
    intro file hfile compact written hwritten single
    have hsingle : single = perform w settings (.parse file none compact none) :=
      run_parse hproject hload (hfiles file hfile) hwritten
    rw [hsingle]
    exact ⟨rfl, ofDocument?_lines (hfit file hfile) compact⟩

/-- A project `p` without settings, in which one file is fine and another is cut off inside a
character. -/
def goodAndCut : Surroundings where
  grammar := fun _ _ => .ok (.node ⟨"module", true, false, false, none, 0, 1⟩ [])
  files := .ofList [("a.py", .file [0x78]), ("b.py", .file [0x78, 0xC3])]

/-- The batch holds an outline of the first file and says what is wrong with the second and with one
that is not there. -/
theorem batch_goodAndCut :
    let files := ["a.py", "b.py", "c.py"]
    let batch := run goodAndCut ["-p", "p", "batch", "a.py", "--compact", "b.py", "c.py"]
    batch.exitCode = 0 ∧ ∃ outlines, Outline.ofBatchDocument? batch.stdout = some outlines ∧
      List.Forall₂
        (fun file outline => ∀ compact written, WithCompact [file] compact written →
          let single := run goodAndCut (["-p", "p"] ++ "parse" :: written)
          single.exitCode = 0 ∧ Outline.ofDocument? single.stdout = some outline)
        files outlines := by
  intro files
  have hload : Settings.load goodAndCut.files goodAndCut.env ((some "p").getD ".") =
      .ok (Settings.withEnvironment {} ∅).normalize := by
    have hunset : Settings.ofFile goodAndCut.files "p" = .ok {} := if_neg (by decide +kernel)
    have hfault : (Settings.withEnvironment {} ∅).normalize.fault? = none :=
      Option.isNone_iff_eq_none.mp (by decide +kernel)
    have henv : goodAndCut.env = ∅ := rfl
    simp [Settings.load, hunset, henv, hfault, bind, Except.bind]
  have hfiles : ∀ file ∈ files, file ≠ "" ∧ file.toList.head? ≠ some '-' := by decide
  have hsizes : ∀ file ∈ files, (match goodAndCut.files.get file with
      | .ok (.file bytes) => decide (bytes.length + 1 < Record.countLimit)
      | _ => true) = true := by decide +kernel
  refine batch_agrees_with_single goodAndCut (.apart (by decide) (by decide) (by decide +kernel))
    hload ?_ (by decide) (fun file hfile => ⟨(hfiles file hfile).1, (hfiles file hfile).2⟩) ?_
    (.set ["a.py"] ["b.py", "c.py"])
  · intro l src root hroot
    cases hroot
    show ∀ t ∈ Tree.nodes _, t.children.length < Record.countLimit
    decide
  · intro file hfile bytes hbytes
    have hsize := hsizes file hfile
    rw [hbytes] at hsize
    exact of_decide_eq_true hsize

end CodeOutline.CommandLine
