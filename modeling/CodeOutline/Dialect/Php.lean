import CodeOutline.Dialect.Basic

/-!
# PHP

Types, functions, properties and constants. A trait that a class uses is a parent of it. Attribute
lists stand inside a declaration, and its head begins after them. Paths are divided by backslashes,
and those that a path begins with are dropped.
-/

namespace CodeOutline.Php

def selfWords : List String := ["$this", "self", "static", "parent"]

/-- A path without the backslashes it begins with. -/
def relativePath (path : String) : String := Text.dropStart ['\\'] path

/-! ## Attributes -/

mutual

/-- The attributes below a node: those right below it, the last one first, then those further down,
in source order. -/
def attributes : Tree → List Tree
  | .node _ children =>
    (children.filter fun t => t.named && t.kind == "attribute").reverse ++ deeper children

/-- The attributes below the nodes of a list that are no attributes themselves. -/
def deeper : List Tree → List Tree
  | [] => []
  | t :: rest => (if t.named && t.kind != "attribute" then attributes t else []) ++ deeper rest

end

def mark? (src : String) (t : Tree) : Option Mark :=
  t.firstNamed?.map fun name =>
    let arguments := ((t.field? "parameters").or (t.ofKind? "arguments")).map fun list =>
      Argument.dictionary (list.text src)
    { name := relativePath (name.text src), arguments := arguments.getD ∅ }

def marks (src : String) (t : Tree) : List Mark :=
  (((t.ofKind? "attribute_list").map attributes).getD []).filterMap (mark? src)

/-! ## Declarations -/

/-- Where the head of a declaration begins. -/
def headStart (t : Tree) : Nat := t.startAfter ["attribute_list"]

def signature (src : String) (t : Tree) (body : Option Tree) : String :=
  dropTerminator ';' (t.headlineFrom src (headStart t) body)

def declaration (src : String) (c : Cursor) (scope : Scope) (name : String) (kind : SymbolKind)
    (signature : String) : Item :=
  Item.declare src c.node scope name kind signature (Comments.blockSummary src [] c)
    (marks src c.node)

def typeKind : String → SymbolKind
  | "interface_declaration" => .interfaceType
  | "trait_declaration" => .traitType
  | "enum_declaration" => .enumType
  | _ => .classType

/-- The names in a clause, which may begin with a keyword. -/
def clauseNames (text : String) : List String :=
  let text := Text.trim text
  let list := (Text.afterStart? "extends" text |>.or (Text.afterStart? "implements" text))
    |>.getD text
  (Text.splitTop ',' false list).map fun name => relativePath (Text.trim name)

def parents (src child : String) (t : Tree) : List Item :=
  ["base_clause", "class_interface_clause"].flatMap fun kind =>
    match t.ofKind? kind with
    | none => []
    | some clause => (clauseNames (clause.text src)).flatMap (Item.inherit child)

def typeItems (src : String) (scope : Scope) (c : Cursor) : List Item :=
  match c.node.fieldText? src "name" with
  | none => []
  | some name =>
    let qualified := scope.qualify name
    let body := (c.field? "body").or (c.ofKind? "declaration_list")
      |>.or (c.ofKind? "enum_declaration_list")
    declaration src c scope name (typeKind c.node.kind)
        (signature src c.node (body.map (·.node))) ::
      (parents src qualified c.node ++ Item.within body (scope.inside name .type))

/-- The traits that a declaration inside a class uses, without the rules for their conflicts. -/
def usedTraits (text : String) : List String :=
  let text := Text.trim text
  let text := Text.firstPiece ['\x7b'] ((Text.afterStart? "use" text).getD text)
  (Text.splitTop ',' false (Text.dropEnd [';'] text)).map fun name =>
    relativePath (Text.trim name)

def traitItems (src : String) (scope : Scope) (t : Tree) : List Item :=
  if scope.path.isEmpty then []
  else (usedTraits (t.text src)).flatMap (Item.inherit (".".intercalate scope.path))

def routineKind (container : Container) (kind name : String) : SymbolKind :=
  if kind = "method_declaration" then
    if Text.asciiLower name = "__construct" then .constructor else .method
  else if container = .type then .method
  else .function

def routineItems (src : String) (scope : Scope) (c : Cursor) : List Item :=
  match c.node.fieldText? src "name" with
  | none => []
  | some name =>
    declaration src c scope name (routineKind scope.container c.node.kind name)
        (signature src c.node (c.node.field? "body")) ::
      Item.within (c.field? "body") (scope.inside name .routine)

/-- The head of one property: what all properties of a declaration share, then its own part. -/
def propertySignature (src shared : String) (element : Tree) : String :=
  let own := element.headlineFrom src element.start (element.field? "default_value")
  dropTerminator '=' s!"{shared} {own}"

def propertyItems (src : String) (scope : Scope) (c : Cursor) : List Item :=
  match c.node.namedChildren.filter fun t => t.kind == "property_element" with
  | [] => []
  | first :: rest =>
    let shared := headline src (headStart c.node) first.start
    (first :: rest).filterMap fun element =>
      ((element.field? "name").or (element.ofKind? "variable_name")).map fun name =>
        declaration src c scope (Text.dropStart ['$'] (name.text src)) .property
          (propertySignature src shared element)

def constantItems (src : String) (scope : Scope) (c : Cursor) : List Item :=
  let kind := if scope.container = .type then SymbolKind.field else .moduleItem
  (c.node.namedChildren.filter fun t => t.kind == "const_element").filterMap fun element =>
    ((element.field? "name").or (element.ofKind? "name")).map fun name =>
      declaration src c scope (name.text src) kind (signature src c.node none)

def caseItems (src : String) (scope : Scope) (c : Cursor) : List Item :=
  (c.node.fieldText? src "name").toList.map fun name =>
    declaration src c scope name .field (signature src c.node none)

def namespaceItems (src : String) (scope : Scope) (c : Cursor) : List Item :=
  ((c.node.fieldText? src "name").toList.map fun name =>
      Item.found (.package (relativePath name))) ++
    Item.within (c.field? "body") scope

/-! ## Imported names -/

/-- A clause without the word that says what kind of name is imported. -/
def dropKind (text : String) : String :=
  (((Text.afterStart? "function " text).or (Text.afterStart? "const " text)).map
    Text.trimStart).getD text

/-- The import that one clause makes below the path `root`. -/
def clauseImport (root clause : String) : Import :=
  let (path, asName) := match Text.cut? " as " clause with
    | some (path, name) => (Text.trim path, some (Text.trim name))
    | none => (clause, none)
  let full := relativePath (if root.isEmpty then path else s!"{root}\\{path}")
  match Text.cutLast? "\\" full with
  | some (path, name) => .member path name asName
  | none => .whole full asName

/-- The path before a group, and the clauses in it. -/
def group (text : String) : String × String :=
  let braces := (Text.cut? "\x7b" text).bind fun (root, rest) =>
    (Text.cutLast? "\x7d" rest).map fun (clauses, _) =>
      (Text.dropEnd ['\\'] (Text.trim root), clauses)
  braces.getD ("", text)

/-- The imports that a `use` declaration makes, one for each clause. -/
def useImports (declaration : String) : List Import :=
  match Text.afterStart? "use" (Text.trim declaration) with
  | none => []
  | some rest =>
    let (root, clauses) := group (dropKind (Text.trim (Text.dropEnd [';'] (Text.trim rest))))
    let clauses := (Text.splitTop ',' false clauses).map fun clause => dropKind (Text.trim clause)
    (clauses.filter fun clause => !clause.isEmpty).map (clauseImport root)

/-! ## The dialect -/

def rule (src : String) : Rule := fun scope c =>
  match c.node.kind with
  | "namespace_definition" => namespaceItems src scope c
  | "namespace_use_declaration" => (useImports (c.node.text src)).map Item.imports
  | "class_declaration" | "interface_declaration" | "trait_declaration" | "enum_declaration" =>
    typeItems src scope c
  | "function_definition" | "method_declaration" => routineItems src scope c
  | "property_declaration" => propertyItems src scope c
  | "const_declaration" => constantItems src scope c
  | "enum_case" => caseItems src scope c
  | "use_declaration" =>
    if scope.container = .type then traitItems src scope c.node else [.enter c scope]
  | _ => [.enter c scope]

def isHead (t : Tree) : Bool := ["variable_name", "name", "qualified_name"].contains t.kind

/-- The kinds of nodes that are names of functions or classes. -/
def isName (t : Tree) : Bool := t.kind == "name" || t.kind == "qualified_name"

def functionCall (src : String) (target : Tree) (arguments : Nat) : CallSite :=
  if isName target then .direct (relativePath (target.text src)) .function arguments
  else .dynamic arguments

def memberCall (src : String) (object name : Tree) (arguments : Nat) : CallSite :=
  let links := ["member_access_expression", "nullsafe_member_access_expression"]
  if name.kind == "name" && object.isChain isHead links "object" then
    .direct (object.text src ++ "->" ++ name.text src) .method arguments
  else .dynamic arguments

def scopedCall (src : String) (scope name : Tree) (arguments : Nat) : CallSite :=
  if name.kind != "name" || scope.kind == "variable_name" then .dynamic arguments
  else
    let receiver := relativePath (scope.text src)
    .direct (receiver ++ "::" ++ name.text src)
      (if selfWords.contains receiver then .method else .staticMethod) arguments

def construction (src : String) (target : Tree) (arguments : Nat) : CallSite :=
  if isName target then .direct (relativePath (target.text src)) .constructor arguments
  else if target.kind == "relative_scope" then .direct (target.text src) .constructor arguments
  else .dynamic arguments

def site? (src : String) (_modules : List String) (t : Tree) : Option CallSite := do
  let arguments := CallSite.countArguments (t.field? "arguments")
  match t.kind with
  | "function_call_expression" => return functionCall src (← t.field? "function") arguments
  | "member_call_expression" | "nullsafe_member_call_expression" =>
    return memberCall src (← t.field? "object") (← t.field? "name") arguments
  | "scoped_call_expression" =>
    return scopedCall src (← t.field? "scope") (← t.field? "name") arguments
  | "object_creation_expression" =>
    let target ← t.namedChildren.find? fun n =>
      n.kind != "attribute_list" && n.kind != "arguments"
    return construction src target (CallSite.countArguments (t.ofKind? "arguments"))
  | _ => none

def dialect : Dialect where
  docstring src root := Comments.leadingBlockSummary src ["php_tag", "text"]
    ["namespace_definition", "namespace_use_declaration", "declare_statement"] root
  rule
  package := Dialect.firstPackage
  site?

end CodeOutline.Php
