import CodeOutline.CommandLine.Basic
import CodeOutline.Tree.Document

/-!
# The program

Takes a picture of the files that the command line speaks of, runs the command on it, and carries
out what comes of it. The syntax tree of a file is read from a document beside it, whose name has
`.tree.json` at the end.
-/

namespace CodeOutline.Program

/-- The error code for reading a directory as if it were a file. -/
def isDirectoryCode : UInt32 := 21

/-- What is at a path. -/
def look (path : String) : IO (Option Entry) := do
  try
    return some (.file (← IO.FS.readBinFile path).data.toList)
  catch error =>
    match error with
    | .inappropriateType _ code _ =>
      return if code == isDirectoryCode then some .directory else none
    | _ => return none

/-- The beginnings of a path, up to each slash, and the path. -/
def beginnings (path : String) : List String :=
  let components := Text.pieces ['/'] path
  (List.range components.length).map fun n => "/".intercalate (components.take (n + 1))

def snapshot (paths : List String) : IO FileTree := do
  let seen ← (paths.flatMap beginnings).filterMapM fun path => do
    if path.isEmpty then return none
    return (← look path).map fun entry => (path, entry)
  return FileTree.ofList seen

/-- The files that an invocation reads. -/
def inputs (i : CommandLine.Invocation) : List String :=
  match i.command with
  | .parse file .. => [file]
  | .batch files .. => files
  | .languages => []

def output? (i : CommandLine.Invocation) : Option String :=
  match i.command with
  | .parse _ _ _ output | .batch _ _ output => output
  | .languages => none

def treePath (path : String) : String := path ++ ".tree.json"

/-- The tree beside a file, with the file's text. -/
def tree? (files : FileTree) (path : String) : Option (String × Tree) := do
  let text ← (Utf8.decode (← (files.read path).toOption)).toOption
  let document ← (Utf8.decode (← (files.read (treePath path)).toOption)).toOption
  return (Outliner.dropOrderMark text, ← Tree.ofDocument? document)

/-- The trees that stand beside files. -/
def grammar (trees : List (String × Tree)) : Grammar := fun l src =>
  match trees.find? fun t => t.1 == src with
  | some t => .ok t.2
  | none => .error (.grammarUnavailable l.name "there is no syntax tree beside the file")

def environment : IO Dictionary := do
  let names := ["SRCMODEL_MAX_FILE_BYTES", "SRCMODEL_MAX_ERROR_RATIO"]
  let entries ← names.filterMapM fun name => do
    return (← IO.getEnv name).map fun value => (name, value)
  return Dictionary.ofList entries

def main (words : List String) : IO UInt32 := do
  let invocation := CommandLine.invocation? words
  let sources := (invocation.map inputs).getD []
  let output := invocation.bind output?
  let root := (invocation.bind (·.project)).getD "."
  let files ← snapshot
    (Settings.path root :: sources ++ sources.map treePath ++ output.toList)
  let trees := sources.filterMap (tree? files)
  let outcome := CommandLine.run { grammar := grammar trees, files, env := ← environment } words
  IO.print outcome.stdout
  (← IO.getStderr).putStr outcome.stderr
  if outcome.exitCode = 0 then
    for path in output do
      for bytes in (outcome.files.read path).toOption do
        IO.FS.writeBinFile path (ByteArray.mk bytes.toArray)
  return UInt32.ofNat outcome.exitCode

end CodeOutline.Program

def main (words : List String) : IO UInt32 := CodeOutline.Program.main words
