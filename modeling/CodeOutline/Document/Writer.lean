import CodeOutline.Json.Writer
import CodeOutline.Outline.Basic

/-!
# Writing outlines

An outline as a JSON document. Every field is written, absent texts as `null`, except that only an
outline with an error has the entry for it.
-/

namespace CodeOutline

namespace Mark

def toJson (m : Mark) : Json :=
  .record [
    ("name", .text m.name),
    ("arguments", .record (m.arguments.entries.map fun (key, value) => (key, .text value)))]

end Mark

namespace Symbol

def toJson (s : Symbol) : Json :=
  .record [
    ("name", .text s.name),
    ("kind", .text s.kind.name),
    ("signature", .text s.signature),
    ("docstring", .text? s.docstring),
    ("line_start", .nat s.lineStart),
    ("line_end", .nat s.lineEnd),
    ("annotations", .array (s.marks.map Mark.toJson))]

end Symbol

namespace Import

def toJson (i : Import) : Json :=
  .record [
    ("module", .text i.path),
    ("names", .array (i.names.map Json.text)),
    ("is_from", .bool i.isFrom),
    ("alias", .text? i.asName)]

end Import

namespace Inheritance

def toJson (i : Inheritance) : Json :=
  .record [("child", .text i.child), ("parent", .text i.parent)]

end Inheritance

namespace Call

def toJson (c : Call) : Json :=
  .record [
    ("caller", .text c.caller),
    ("callee", .text? c.callee),
    ("line_number", .nat c.line),
    ("call_type", .text c.kind.name),
    ("arguments_count", .nat c.arguments)]

end Call

namespace Outline

def toJson (o : Outline) : Json :=
  .record ([
    ("path", .text o.path),
    ("language", .text o.language),
    ("symbols", .array (o.contents.symbols.map Symbol.toJson)),
    ("imports", .array (o.contents.imports.map Import.toJson)),
    ("inheritances", .array (o.contents.inheritances.map Inheritance.toJson)),
    ("calls", .array (o.contents.calls.map Call.toJson)),
    ("module_docstring", .text? o.contents.docstring),
    ("namespace", .text o.contents.package)] ++
    (o.error.toList.map fun error => ("error", .text error)) ++
    [("file_lines", .nat o.lineCount)])

/-- The document of one outline. -/
def document (layout : Json.Layout) (o : Outline) : String := o.toJson.write layout

/-- The document of a list of outlines. -/
def batchDocument (layout : Json.Layout) (outlines : List Outline) : String :=
  (Json.array (outlines.map toJson)).write layout

end Outline

end CodeOutline
