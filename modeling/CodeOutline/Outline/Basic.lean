import CodeOutline.Outline.Reference
import CodeOutline.Outline.Symbol

/-!
# Outlines

The outline of a file: what it declares, imports, inherits and calls, in source order. A file that
cannot be outlined has an outline too, which holds the reason and nothing else.
-/

namespace CodeOutline

/-- What is found in a file. -/
structure Contents where
  symbols : List Symbol := []
  imports : List Import := []
  inheritances : List Inheritance := []
  calls : List Call := []
  /-- The summary of the documentation of the file as a whole. -/
  docstring : Option String := none
  /-- The package or namespace that the file declares, or an empty text. -/
  package : String := ""
deriving DecidableEq

structure Outline where
  path : String
  /-- The name of the file's language, or an empty text if it is unknown. -/
  language : String := ""
  contents : Contents := {}
  error : Option String := none
  lineCount : Nat := 0
deriving DecidableEq

namespace Outline

def isOk (o : Outline) : Bool := o.error.isNone

def symbol? (o : Outline) (name : String) : Option Symbol :=
  o.contents.symbols.find? fun s => s.name == name

def parentsOf (o : Outline) (child : String) : List String :=
  (o.contents.inheritances.filter fun i => i.child == child).map (·.parent)

def callsFrom (o : Outline) (caller : String) : List Call :=
  o.contents.calls.filter fun c => c.caller == caller

/-- One line that counts what the outline holds. -/
def stats (o : Outline) : String :=
  let symbols := o.contents.symbols.length
  let imports := o.contents.imports.length
  let inheritances := o.contents.inheritances.length
  let calls := o.contents.calls.length
  let dynamic := (o.contents.calls.filter fun c => c.callee.isNone).length
  s!"{symbols} symbols, {imports} imports, {inheritances} inheritances, "
    ++ s!"{calls} calls ({dynamic} dynamic)"

end Outline

end CodeOutline
