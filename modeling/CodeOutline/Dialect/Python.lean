import CodeOutline.Dialect.Basic

/-!
# Python

Classes, functions and the names assigned at the top of a file or class. A definition may be wrapped
in a node that holds its decorators; the symbol then covers both. Documentation is the string that
a body begins with.
-/

namespace CodeOutline.Python

def selfWords : List String := ["self", "cls", "super"]

/-- The decorators that turn a method into a property. -/
def propertyMarks : List String :=
  ["property", "cached_property", "functools.cached_property", "abc.abstractproperty",
    "abstractproperty"]

def isPropertyMark (m : Mark) : Bool :=
  propertyMarks.contains m.name ||
    [".setter", ".getter", ".deleter"].any fun accessor => Text.endsWith accessor m.name

/-- The documentation of a body. -/
def docstring (src : String) (body : Tree) : Option String := do
  let first ← body.namedChildren.find? fun t => t.kind != "comment"
  let string ← if first.kind == "expression_statement" then first.firstNamed? else none
  if string.kind == "string" then Summary.ofStringLiteral (string.text src) else none

def marks (src : String) (t : Tree) : List Mark :=
  (t.children.filter fun c => c.kind == "decorator").filterMap (Mark.ofDecorator src "call")

/-! ## Declarations -/

/-- The head of a definition. -/
def signature (src : String) (definition : Tree) : String :=
  dropTerminator ':' (definition.headlineFrom src definition.start (definition.field? "body"))

/-- The arguments of a class that are no parents. -/
def nonParents : List String := ["keyword_argument", "list_splat", "dictionary_splat", "comment"]

def parents (src child : String) (definition : Tree) : List Item :=
  let bases := ((definition.field? "superclasses").map Tree.namedChildren).getD []
  (bases.filter fun t => !nonParents.contains t.kind).flatMap fun t =>
    Item.inherit child (t.text src)

def classItems (src : String) (scope : Scope) (span definition : Cursor) (marks : List Mark) :
    List Item :=
  match definition.node.fieldText? src "name" with
  | none => []
  | some name =>
    let body := definition.field? "body"
    let qualified := scope.qualify name
    Item.declare src span.node scope name .classType (signature src definition.node)
        (body.bind fun b => docstring src b.node) marks ::
      (parents src qualified definition.node ++ Item.within body (scope.inside name .type))

def routineKind (container : Container) (name : String) (marks : List Mark) : SymbolKind :=
  if container ≠ .type then .function
  else if name = "__init__" then .constructor
  else if marks.any isPropertyMark then .property
  else .method

def routineItems (src : String) (scope : Scope) (span definition : Cursor) (marks : List Mark) :
    List Item :=
  match definition.node.fieldText? src "name" with
  | none => []
  | some name =>
    let body := definition.field? "body"
    Item.declare src span.node scope name (routineKind scope.container name marks)
        (signature src definition.node) (body.bind fun b => docstring src b.node) marks ::
      Item.within body (scope.inside name .routine)

def definitionItems (src : String) (scope : Scope) (span definition : Cursor)
    (marks : List Mark) : List Item :=
  match definition.node.kind with
  | "class_definition" => classItems src scope span definition marks
  | "function_definition" => routineItems src scope span definition marks
  | _ => []

def isTypeAlias (annotated : Option String) : Bool :=
  annotated.any fun type => type == "TypeAlias" || Text.endsWith ".TypeAlias" type

/-- A plain name that is assigned to outside routines. -/
def assignment? (src : String) (scope : Scope) (statement : Tree) : Option Item := do
  let assignment ← statement.firstNamed?.filter fun t => t.kind == "assignment"
  let left ← (assignment.field? "left").filter fun t => t.kind == "identifier"
  let kind :=
    if isTypeAlias (assignment.fieldText? src "type") then SymbolKind.typeAlias
    else if scope.container = .type then .field
    else .moduleItem
  let head := assignment.headlineFrom src assignment.start (assignment.field? "right")
  return Item.declare src statement scope (left.text src) kind (dropTerminator '=' head)

def typeAlias? (src : String) (scope : Scope) (statement : Tree) : Option Item := do
  let left ← (statement.field? "left").or statement.firstNamed?
  let name := Text.trim (Text.firstPiece ['['] (left.text src))
  return Item.declare src statement scope name .typeAlias
    (headline src statement.start statement.stop)

/-! ## Imported names -/

/-- The imported name and the local name that a part of a statement gives. -/
def binding? (src : String) (part : Tree) : Option (String × Option String) :=
  if part.kind == "aliased_import" then
    (part.fieldText? src "name").map fun name => (name, part.fieldText? src "alias")
  else some (part.text src, none)

def wholeImports (src : String) (statement : Tree) : List Item :=
  ((statement.fields "name").filterMap (binding? src)).map fun (name, asName) =>
    Item.imports (.whole name asName)

def memberImports (src : String) (statement : Tree) : List Item :=
  let path :=
    if statement.kind == "future_import_statement" then some "__future__"
    else statement.fieldText? src "module_name"
  match path with
  | none => []
  | some path =>
    let wildcard :=
      if statement.hasKind "wildcard_import" then [Item.imports (.member path "*" none)] else []
    wildcard ++ ((statement.fields "name").filterMap (binding? src)).map fun (name, asName) =>
      Item.imports (.member path name asName)

/-! ## The dialect -/

def rule (src : String) : Rule := fun scope c =>
  match c.node.kind with
  | "import_statement" => wholeImports src c.node
  | "import_from_statement" | "future_import_statement" => memberImports src c.node
  | "class_definition" | "function_definition" => definitionItems src scope c c []
  | "decorated_definition" =>
    ((c.field? "definition").map fun definition =>
      definitionItems src scope c definition (marks src c.node)).getD []
  | "expression_statement" =>
    if scope.container = .routine then [.enter c scope] else (assignment? src scope c.node).toList
  | "type_alias_statement" =>
    if scope.container = .routine then [.enter c scope] else (typeAlias? src scope c.node).toList
  | _ => [.enter c scope]

/-- The names that whole modules go by: the local name given, or the first segment of the path. -/
def moduleNames (imports : List Import) : List String :=
  (imports.filter fun i => i.names.isEmpty).map fun i =>
    i.asName.getD (CallSite.receiverHead i.path)

/-- Whether a chain of attributes begins with a name, or with the parent object. -/
def isHead (src : String) (t : Tree) : Bool :=
  t.kind == "identifier" || (t.kind == "call" && t.text src == "super()")

def attributeCall (src : String) (modules : List String) (target : Tree) (arguments : Nat) :
    CallSite :=
  let receiver := (target.fieldText? src "object").getD ""
  let kind :=
    if modules.contains (CallSite.receiverHead receiver) then CallKind.function
    else CallSite.memberKind selfWords receiver
  .direct (target.text src) kind arguments

def site? (src : String) (modules : List String) (t : Tree) : Option CallSite :=
  if t.kind == "call" then
    (t.field? "function").map fun target =>
      let arguments := CallSite.countArguments (t.field? "arguments")
      match target.kind with
      | "identifier" =>
        let name := target.text src
        .direct name (if Text.startsUppercase name then .constructor else .function) arguments
      | "attribute" =>
        if target.isChain (isHead src) ["attribute"] "object" then
          attributeCall src modules target arguments
        else .dynamic arguments
      | _ => .dynamic arguments
  else none

def dialect : Dialect where
  docstring
  rule
  moduleNames
  site?

end CodeOutline.Python
