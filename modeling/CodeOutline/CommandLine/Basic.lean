import CodeOutline.CommandLine.Invocation
import CodeOutline.Document.Writer
import CodeOutline.Outliner
import CodeOutline.Settings.File

/-!
# Running commands

What a command prints and writes, as a function of the files it sees. The outcome holds the exit
code: zero, or one if settings cannot be loaded or a file cannot be written, or two if the command
line makes no sense.
-/

namespace CodeOutline.CommandLine

structure Outcome where
  exitCode : Nat := 0
  stdout : String := ""
  stderr : String := ""
  /-- The files afterwards. -/
  files : FileTree

/-- What a command runs on. -/
structure Surroundings where
  grammar : Grammar
  files : FileTree
  env : Dictionary := ∅

def lines (ls : List String) : String := String.join (ls.map (· ++ "\n"))

/-- Prints a document, or writes it to a file and says so. -/
def emit (files : FileTree) (document : String) (notes : String) :
    (output : Option String) → Outcome
  | none => { stdout := lines [document], stderr := notes, files }
  | some path =>
    match files.write path (Utf8.encode document) with
    | .ok files => { stderr := notes ++ lines [s!"Saved to: {path}"], files }
    | .error _ => { exitCode := 1, stderr := lines [s!"Error: failed to write {path}"], files }

def layout (compact : Bool) : Json.Layout := if compact then .compact else .indented

/-- The counts of a batch, and the files that have no outline. -/
def summary (outlines : List Outline) : String :=
  let failed := outlines.filter fun o => !o.isOk
  let count := outlines.length
  let failures := failed.length
  let successes := count - failures
  let symbols := (outlines.flatMap fun o => o.contents.symbols).length
  let calls := (outlines.flatMap fun o => o.contents.calls).length
  lines ([s!"Parsed {count} files:", s!"  Succeeded: {successes}", s!"  Failed: {failures}",
      s!"  Symbols: {symbols}", s!"  Calls: {calls}"] ++
    failed.map fun o => "  " ++ o.path ++ " - " ++ o.error.getD "")

/-! ## The table of languages -/

/-- A text with blanks up to a width. -/
def padded (width : Nat) (s : String) : String :=
  s ++ String.ofList (List.replicate (width - s.toList.length) ' ')

def row (name aliases extensions : String) : String :=
  padded 12 name ++ " " ++ padded 14 aliases ++ " " ++ extensions

/-- The extensions of a language, its own and those that are set for it. -/
def extensions (s : Settings) (l : Language) : List String :=
  (l.extensions.map fun e => s!".{e}") ++
    (s.extensions.entries.filter fun e => Language.ofName? e.2 == some l).map fun (e, _) =>
      s!".{e} (configured)"

def languageTable (s : Settings) : String :=
  lines (row "LANGUAGE" "ALIASES" "EXTENSIONS" :: Language.all.map fun l =>
    row l.name (", ".intercalate l.aliases) (" ".intercalate (extensions s l)))

/-! ## Commands -/

def perform (w : Surroundings) (settings : Settings) : Command → Outcome
  | .parse file lang compact output =>
    let outliner : Outliner := { grammar := w.grammar, settings }
    emit w.files ((outliner.outlineFile w.files file lang).document (layout compact)) "" output
  | .batch files compact output =>
    let outliner : Outliner := { grammar := w.grammar, settings }
    let outlines := outliner.outlineFiles w.files files
    emit w.files (Outline.batchDocument (layout compact) outlines) (summary outlines) output
  | .languages => { stdout := languageTable settings, files := w.files }

/-- Runs the command that the words of a command line make. -/
def run (w : Surroundings) (words : List String) : Outcome :=
  match invocation? words with
  | none =>
    { exitCode := 2
      stderr := lines ["error: the command line is not understood"]
      files := w.files }
  | some invocation =>
    match Settings.load w.files w.env (invocation.project.getD ".") with
    | .error failure =>
      { exitCode := 1, stderr := lines ["Error: " ++ failure.message], files := w.files }
    | .ok settings => perform w settings invocation.command

end CodeOutline.CommandLine
