import CodeOutline.Dialect.Basic
import CodeOutline.Names.ImportTable

/-!
# Go

Only what a file declares at its top is looked at. Methods are named after the type of their
receiver. A type embedded in a struct or interface is a parent of it.
-/

namespace CodeOutline.Go

/-- A comment is documentation unless it is a directive for a tool. -/
def isDoc (text : String) : Bool :=
  !(["//go:", "// +build", "//nolint"].any fun directive => Text.startsWith directive text)

def docstring (src : String) (c : Cursor) : Option String :=
  match (Comments.before src isDoc [] c).map (Tree.text src) with
  | [] => none
  | [only] =>
    if Text.startsWith "/*" only then Summary.ofBlockComment only
    else Summary.ofLineComments [only]
  | lines => Summary.ofLineComments lines

/-! ## Declarations -/

/-- The name of the type that a receiver has. -/
def receiverType (text : String) : String :=
  Text.dropTypeArguments (Text.dropStart ['*'] (Text.trim text))

def receiver? (src : String) (t : Tree) : Option String := do
  let parameter ← (← t.field? "receiver").namedChildren.find? fun p =>
    p.kind == "parameter_declaration"
  let type := receiverType (← parameter.fieldText? src "type")
  if type.isEmpty then none else some type

def signature (src : String) (t : Tree) : String := t.headlineFrom src t.start (t.field? "body")

def functionItems (src : String) (c : Cursor) : List Item :=
  (c.node.fieldText? src "name").toList.map fun name =>
    Item.declare src c.node {} name .function (signature src c.node) (docstring src c)

def methodItems (src : String) (c : Cursor) : List Item :=
  (c.node.fieldText? src "name").toList.map fun name =>
    let scope : Scope := { path := (receiver? src c.node).toList }
    Item.declare src c.node scope name .method (signature src c.node) (docstring src c)

/-- The scope of the members of a type. -/
def members (owner : String) : Scope := { path := [owner], container := .type }

/-- The fields that one declaration in a struct gives, or the type it embeds. -/
def fieldItems (src owner : String) (c : Cursor) : List Item :=
  match c.node.fields "name" with
  | [] =>
    match c.node.fieldText? src "type" with
    | none => []
    | some embedded => Item.inherit owner (Text.dropStart ['*'] embedded)
  | names =>
    names.map fun n =>
      Item.declare src c.node (members owner) (n.text src) .field
        (c.node.headlineFrom src c.node.start (c.node.field? "tag")) (docstring src c)

def structItems (src owner : String) (type : Cursor) : List Item :=
  match type.ofKind? "field_declaration_list" with
  | none => []
  | some list =>
    (list.namedChildren.filter fun f => f.node.kind == "field_declaration").flatMap
      (fieldItems src owner)

/-- A method of an interface, or an embedded type. Unions and approximations embed nothing. -/
def elementItems (src owner : String) (c : Cursor) : List Item :=
  match c.node.kind with
  | "method_elem" | "method_spec" =>
    (c.node.fieldText? src "name").toList.map fun name =>
      Item.declare src c.node (members owner) name .method (headline src c.node.start c.node.stop)
        (docstring src c)
  | "type_elem" | "interface_type_name" | "constraint_elem" =>
    let text := Text.trim (c.node.text src)
    if Text.hasPart "|" text || Text.startsWith "~" text then [] else Item.inherit owner text
  | _ => []

def typeKind (spec type : String) : SymbolKind :=
  match spec, type with
  | "type_spec", "struct_type" => .structType
  | "type_spec", "interface_type" => .interfaceType
  | _, _ => .typeAlias

def memberItems (src owner : String) (type : Cursor) : List Item :=
  match type.node.kind with
  | "struct_type" => structItems src owner type
  | "interface_type" => type.namedChildren.flatMap (elementItems src owner)
  | _ => []

/-- The node that one specification of a declaration covers: all of the declaration if nothing else
is declared by it. -/
def span (declaration spec : Cursor) : Tree :=
  if spec.depth = declaration.depth + 1 ∧ declaration.node.namedChildren.length = 1 then
    declaration.node
  else spec.node

def specDocstring (src : String) (declaration spec : Cursor) : Option String :=
  (docstring src spec).or (docstring src declaration)

def typeItems (src : String) (declaration spec : Cursor) : List Item :=
  match spec.node.fieldText? src "name", spec.field? "type" with
  | some name, some type =>
    let kind := typeKind spec.node.kind type.node.kind
    let head := headline src spec.node.start spec.node.stop
    let head :=
      if kind.isType then Text.trimEnd (Text.firstPiece ['\x7b'] head) else head
    Item.declare src (span declaration spec) {} name kind s!"type {head}"
        (specDocstring src declaration spec) ::
      memberItems src name type
  | _, _ => []

/-- The specifications of constants or variables in a declaration, which may be grouped. -/
def valueSpecs (c : Cursor) : List Cursor :=
  c.namedChildren.attach.flatMap fun ⟨spec, _h⟩ =>
    match spec.node.kind with
    | "const_spec" | "var_spec" => [spec]
    | "var_spec_list" => valueSpecs spec
    | _ => []
termination_by c.node.size
decreasing_by exact Cursor.size_of_mem_namedChildren (by assumption)

def valueItems (src : String) (declaration spec : Cursor) : List Item :=
  let keyword := if declaration.node.kind == "const_declaration" then "const" else "var"
  let head :=
    dropTerminator '=' (spec.node.headlineFrom src spec.node.start (spec.node.field? "value"))
  let names := ((spec.node.fields "name").map (Tree.text src)).filter fun name => name != "_"
  names.map fun name =>
    Item.declare src (span declaration spec) {} name .moduleItem s!"{keyword} {head}"
      (specDocstring src declaration spec)

/-! ## Imported packages -/

def importItem? (src : String) (spec : Tree) : Option Item :=
  (spec.fieldText? src "path").map fun path =>
    Item.imports (.whole (Text.unquote path) (spec.fieldText? src "name"))

def importItems (src : String) (t : Tree) : List Item :=
  t.namedChildren.flatMap fun child =>
    match child.kind with
    | "import_spec" => (importItem? src child).toList
    | "import_spec_list" =>
      (child.namedChildren.filter fun s => s.kind == "import_spec").filterMap (importItem? src)
    | _ => []

def packageItems (src : String) (t : Tree) : List Item :=
  (t.ofKind? "package_identifier").toList.map fun name => .found (.package (name.text src))

/-! ## The dialect -/

def rule (src : String) : Rule := fun _scope c =>
  match c.node.kind with
  | "package_clause" => packageItems src c.node
  | "import_declaration" => importItems src c.node
  | "function_declaration" => functionItems src c
  | "method_declaration" => methodItems src c
  | "type_declaration" =>
    let isSpec := fun (s : Cursor) => s.node.kind == "type_spec" || s.node.kind == "type_alias"
    (c.namedChildren.filter isSpec).flatMap (typeItems src c)
  | "const_declaration" | "var_declaration" => (valueSpecs c).flatMap (valueItems src c)
  | _ => []

/-- The documentation of the package clause, the last one if there are several. -/
def fileDocstring (src : String) (root : Tree) : Option String :=
  let clauses := (Cursor.root root).children.filter fun c => c.node.kind == "package_clause"
  clauses.getLast?.bind (docstring src)

def moduleNames (imports : List Import) : List String :=
  imports.filterMap fun i =>
    match i.asName with
    | some "_" | some "." => none
    | some name => some name
    | none => some (packageName i.path)

def isHead (t : Tree) : Bool := t.kind == "identifier"

def selectorCall (src : String) (modules : List String) (target operand : Tree) (arguments : Nat) :
    CallSite :=
  let isPackage := operand.kind == "identifier" && modules.contains (operand.text src)
  .direct (target.text src) (if isPackage then .function else .method) arguments

def site? (src : String) (modules : List String) (t : Tree) : Option CallSite := do
  let target ← if t.kind == "call_expression" then t.field? "function" else none
  let arguments := CallSite.countArguments (t.field? "arguments")
  match target.kind with
  | "identifier" => return .direct (target.text src) .function arguments
  | "selector_expression" =>
    if target.isChain isHead ["selector_expression"] "operand" then
      return selectorCall src modules target (← target.field? "operand") arguments
    else return .dynamic arguments
  | _ => return .dynamic arguments

def dialect : Dialect where
  docstring := fileDocstring
  rule
  package := Dialect.lastPackage
  moduleNames
  site?

end CodeOutline.Go
