import CodeOutline.Damage
import CodeOutline.Dialects
import CodeOutline.FileTree
import CodeOutline.Settings.Basic
import CodeOutline.Text.Utf8

/-!
# Outlining files

From a file, or a text that is at hand, to its outline. Nothing here fails: a file that cannot be
read or understood has an outline that says why.

How texts become syntax trees is not settled here. It is a parameter, the `Grammar`.
-/

namespace CodeOutline

/-- Syntax trees of texts. -/
abbrev Grammar := Language → String → Except Failure Tree

namespace Outline

/-- The outline of a file that has none. -/
def failed (path language : String) (failure : Failure) : Outline :=
  { path, language, error := some failure.message }

end Outline

/-- What is needed to outline files. -/
structure Outliner where
  grammar : Grammar
  settings : Settings := {}

namespace Outliner

/-- Without one byte order mark at the front. -/
def dropOrderMark (text : String) : String := (Text.afterStart? "\ufeff" text).getD text

/-- What a text in a language holds. -/
def contents (o : Outliner) (l : Language) (src : String) : Except Failure Contents := do
  let tree ← o.grammar l src
  match tree.assess src (o.settings.errorRatio l) with
  | .error rejection => .error (.malformed rejection.message)
  | .ok _ => .ok (l.contents src tree)

/-- The outline of a text without an order mark. -/
def outlineText (o : Outliner) (path : String) (l : Language) (src : String) : Outline :=
  match o.contents l src with
  | .ok contents =>
    { path, language := l.name, contents, lineCount := (Text.lines src).length }
  | .error failure => .failed path l.name failure

/-- The outline of a text in the language with the given name. The path is only recorded. -/
def outlineSource (o : Outliner) (path source id : String) : Outline :=
  match Language.ofName? id with
  | none => .failed path "" (.unsupportedLanguage id)
  | some l =>
    if o.settings.maxFileBytes < source.utf8ByteSize then
      .failed path l.name (.tooLarge source.utf8ByteSize o.settings.maxFileBytes)
    else o.outlineText path l (dropOrderMark source)

/-- The text of a file. -/
def readText (o : Outliner) (files : FileTree) (path : String) : Except Failure String :=
  match files.get path with
  | .error fault => .error (.unreadable path fault.message)
  | .ok .directory => .error (.unreadable path "not a regular file")
  | .ok (.file bytes) =>
    if o.settings.maxFileBytes < bytes.length then
      .error (.tooLarge bytes.length o.settings.maxFileBytes)
    else match Utf8.decode bytes with
      | .ok text => .ok (dropOrderMark text)
      | .error offset => .error (.notUtf8 offset)

/-- The outline of a file, whose language may be given. -/
def outlineFile (o : Outliner) (files : FileTree) (path : String) (given : Option String) :
    Outline :=
  match o.settings.detect path given with
  | .error failure => .failed path "" failure
  | .ok l =>
    match o.readText files path with
    | .ok text => o.outlineText path l text
    | .error failure => .failed path l.name failure

/-- The outlines of files, in order. -/
def outlineFiles (o : Outliner) (files : FileTree) (paths : List String) : List Outline :=
  paths.map fun path => o.outlineFile files path none

end Outliner

end CodeOutline
