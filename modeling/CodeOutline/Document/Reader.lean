import CodeOutline.Decimal.Reader
import CodeOutline.Json.Reader
import CodeOutline.Outline.Basic

/-!
# Reading outlines

A record is read from an object, in which unknown keys are passed over and a known key may stand
once, or from an array of its fields in order. A field may be required, or be left out and then have
a default; the last fields of an array may be left out likewise. A count is written in digits alone
and is less than 2^64.

`Outline.ofDocument?` reads what `Outline.document` writes.
-/

namespace CodeOutline

namespace Record

/-- The keys of an object, if all of them are texts. -/
def entries? (entries : List (Option String × Json)) : Option (List (String × Json)) :=
  entries.mapM fun (key, value) => key.map fun key => (key, value)

/-- The value under a key, if there is one. A repeated key is refused. -/
def slot? (entries : List (String × Json)) (key : String) : Option (Option Json) :=
  match entries.filter fun e => e.1 == key with
  | [] => some none
  | [e] => some (some e.2)
  | _ => none

/-- The values of a record with the given keys, in the order of the keys. -/
def slots? (keys : List String) : Json → Option (List (Option Json))
  | .object entries => (entries? entries).bind fun entries => keys.mapM (slot? entries)
  | .array items =>
    if items.length ≤ keys.length then
      some (items.map some ++ List.replicate (keys.length - items.length) none)
    else none
  | _ => none

/-! ## Fields -/

def required {α : Type} (read : Json → Option α) (slot : Option Json) : Option α := slot.bind read

/-- A field that takes a default if it is left out. -/
def withDefault {α : Type} (default : α) (read : Json → Option α) : Option Json → Option α
  | none => some default
  | some value => read value

/-- A field that is absent if it is left out or `null`. -/
def optional {α : Type} (read : Json → Option α) : Option Json → Option (Option α)
  | none => some none
  | some .null => some none
  | some value => (read value).map some

/-! ## Values -/

def text? : Json → Option String
  | .string text => text
  | _ => none

def bool? : Json → Option Bool
  | .bool value => some value
  | _ => none

/-- The number of values that a count can have. -/
def countLimit : Nat := twoTo 64

def count? : Json → Option Nat
  | .number digits => (Decimal.nat? digits).filter fun n => n < countLimit
  | _ => none

def list? {α : Type} (read : Json → Option α) : Json → Option (List α)
  | .array items => items.mapM read
  | _ => none

/-- A name out of a list of names, written as a text or as the only key of an object. -/
def choice? {α : Type} (ofName? : String → Option α) : Json → Option α
  | .string text => text.bind ofName?
  | .object [(key, .null)] => key.bind ofName?
  | _ => none

def dictionary? : Json → Option Dictionary
  | .object entries => do
    let entries ← (← entries? entries).mapM fun (key, value) => (text? value).map fun t => (key, t)
    return Dictionary.ofList entries
  | _ => none

end Record

open Record

namespace Mark

def ofJson? (j : Json) : Option Mark := do
  match ← slots? ["name", "arguments"] j with
  | [name, arguments] =>
    return { name := ← required text? name, arguments := ← withDefault ∅ dictionary? arguments }
  | _ => none

end Mark

namespace Symbol

def ofJson? (j : Json) : Option Symbol := do
  match ← slots? ["name", "kind", "signature", "docstring", "line_start", "line_end",
      "annotations"] j with
  | [name, kind, signature, docstring, lineStart, lineEnd, marks] =>
    return {
      name := ← required text? name
      kind := ← required (choice? SymbolKind.ofName?) kind
      signature := ← required text? signature
      docstring := ← optional text? docstring
      lineStart := ← required count? lineStart
      lineEnd := ← required count? lineEnd
      marks := ← withDefault [] (list? Mark.ofJson?) marks }
  | _ => none

end Symbol

namespace Import

def ofJson? (j : Json) : Option Import := do
  match ← slots? ["module", "names", "is_from", "alias"] j with
  | [path, names, isFrom, asName] =>
    return {
      path := ← required text? path
      names := ← withDefault [] (list? text?) names
      isFrom := ← required bool? isFrom
      asName := ← optional text? asName }
  | _ => none

end Import

namespace Inheritance

def ofJson? (j : Json) : Option Inheritance := do
  match ← slots? ["child", "parent"] j with
  | [child, parent] =>
    return { child := ← required text? child, parent := ← required text? parent }
  | _ => none

end Inheritance

namespace Call

def ofJson? (j : Json) : Option Call := do
  match ← slots? ["caller", "callee", "line_number", "call_type", "arguments_count"] j with
  | [caller, callee, line, kind, arguments] =>
    return {
      caller := ← required text? caller
      callee := ← optional text? callee
      line := ← required count? line
      kind := ← required (choice? CallKind.ofName?) kind
      arguments := ← required count? arguments }
  | _ => none

end Call

namespace Outline

def ofJson? (j : Json) : Option Outline := do
  match ← slots? ["path", "language", "symbols", "imports", "inheritances", "calls",
      "module_docstring", "namespace", "error", "file_lines"] j with
  | [path, language, symbols, imports, inheritances, calls, docstring, package, error, lineCount] =>
    return {
      path := ← required text? path
      language := ← withDefault "" text? language
      contents := {
        symbols := ← withDefault [] (list? Symbol.ofJson?) symbols
        imports := ← withDefault [] (list? Import.ofJson?) imports
        inheritances := ← withDefault [] (list? Inheritance.ofJson?) inheritances
        calls := ← withDefault [] (list? Call.ofJson?) calls
        docstring := ← optional text? docstring
        package := ← withDefault "" text? package }
      error := ← optional text? error
      lineCount := ← withDefault 0 count? lineCount }
  | _ => none

/-- The outline that a document holds. -/
def ofDocument? (text : String) : Option Outline := (Json.parse? text).bind ofJson?

/-- The outlines that the document of a list of them holds. -/
def ofBatchDocument? (text : String) : Option (List Outline) :=
  (Json.parse? text).bind (list? ofJson?)

end Outline

end CodeOutline
