import CodeOutline.Dialect.Basic

/-!
# TypeScript and JavaScript

Classes, interfaces, enums, type aliases, functions, namespaces, and the variables that stand
outside routines. A variable or class field that is bound to a function is a function or method.
An exported declaration stands in an `export` statement, which holds the start of its head, its
comments and some of its decorators.

Inside a class body only members are looked at, so the container `.type` stands for a class body.
-/

namespace CodeOutline.TypeScript

def selfWords : List String := ["this", "super"]

/-- The kinds of expressions whose value is a function. -/
def functionKinds : List String :=
  ["arrow_function", "function_expression", "function", "generator_function"]

def isFunction (t : Tree) : Bool := functionKinds.contains t.kind

/-! ## Around a declaration -/

/-- The statement that exports a declaration. -/
def export? (c : Cursor) : Option Cursor :=
  c.parent?.filter fun p => p.node.kind == "export_statement"

/-- Where the head of a declaration begins: after the decorators, with the `export`. -/
def headStart (c : Cursor) : Nat := (((export? c).getD c).node).startAfter ["decorator"]

def signature (src : String) (c : Cursor) (body : Option Tree) : String :=
  dropTerminator ';' (c.node.headlineFrom src (headStart c) body)

def docstring (src : String) (c : Cursor) : Option String :=
  Comments.blockSummary src ["decorator"] ((export? c).getD c)

def isDecorator (t : Tree) : Bool := t.kind == "decorator"

/-- The decorators of a declaration: those right before it, those of the statement that exports it,
and those inside it. -/
def decorators (c : Cursor) : List Tree :=
  (c.before.takeWhile isDecorator).reverse ++
    ((export? c).toList.map (·.node) ++ [c.node]).flatMap fun holder =>
      holder.children.filter isDecorator

def marks (src : String) (c : Cursor) : List Mark :=
  (decorators c).filterMap (Mark.ofDecorator src "call_expression")

/-! ## Types -/

/-- The parents in a clause, which may begin with a keyword. A call stands for what is called. -/
def clauseParents (clause : String) : List String :=
  let clause := Text.trim clause
  let list := (Text.afterStart? "extends" clause |>.or (Text.afterStart? "implements" clause))
    |>.getD clause
  (Text.splitTop ',' true list).map fun parent =>
    Text.firstPiece ['('] (Text.dropTypeArguments parent)

def inheritClause (src child : String) (clause : Tree) : List Item :=
  (clauseParents (clause.text src)).flatMap (Item.inherit child)

/-- The clauses of a heritage, or the heritage itself if it is not divided. -/
def heritageClauses (heritage : Tree) : List Tree :=
  let isClause := fun (t : Tree) => t.kind == "extends_clause" || t.kind == "implements_clause"
  match heritage.children.filter isClause with
  | [] => [heritage]
  | clauses => clauses

def classItems (src : String) (scope : Scope) (c : Cursor) : List Item :=
  match c.node.fieldText? src "name" with
  | none => []
  | some name =>
    let qualified := scope.qualify name
    let clauses := ((c.node.ofKind? "class_heritage").map heritageClauses).getD []
    Item.declare src c.node scope name .classType (signature src c (c.node.field? "body"))
        (docstring src c) (marks src c) ::
      (clauses.flatMap (inheritClause src qualified) ++
        Item.within (c.field? "body") (scope.inside name .type))

def interfaceMember? (src : String) (scope : Scope) (c : Cursor) : Option Item := do
  let kind ← match c.node.kind with
    | "property_signature" => some SymbolKind.property
    | "method_signature" => some .method
    | _ => none
  let name ← c.node.fieldText? src "name"
  return Item.declare src c.node scope name kind
    (Text.dropEnd [';', ','] (headline src c.node.start c.node.stop)) (docstring src c)

def interfaceItems (src : String) (scope : Scope) (c : Cursor) : List Item :=
  match c.node.fieldText? src "name" with
  | none => []
  | some name =>
    let qualified := scope.qualify name
    let members := ((c.field? "body").map Cursor.namedChildren).getD []
    Item.declare src c.node scope name .interfaceType (signature src c (c.node.field? "body"))
        (docstring src c) ::
      ((c.node.ofKind? "extends_type_clause").toList.flatMap (inheritClause src qualified) ++
        members.filterMap (interfaceMember? src (scope.inside name .type)))

def enumMember? (src : String) (scope : Scope) (t : Tree) : Option Item := do
  let name ← match t.kind with
    | "enum_assignment" => t.fieldText? src "name"
    | "property_identifier" | "string" => some (t.text src)
    | _ => none
  return Item.declare src t scope (Text.unquote name) .field (headline src t.start t.stop)

def enumItems (src : String) (scope : Scope) (c : Cursor) : List Item :=
  match c.node.fieldText? src "name" with
  | none => []
  | some name =>
    let members := ((c.node.field? "body").map Tree.namedChildren).getD []
    Item.declare src c.node scope name .enumType (signature src c (c.node.field? "body"))
        (docstring src c) ::
      members.filterMap (enumMember? src (scope.inside name .type))

def typeAliasItems (src : String) (scope : Scope) (c : Cursor) : List Item :=
  (c.node.fieldText? src "name").toList.map fun name =>
    Item.declare src c.node scope name .typeAlias (signature src c none)
      (docstring src c)

/-! ## Members of classes -/

def methodKind (name : String) (t : Tree) : SymbolKind :=
  if name = "constructor" then .constructor
  else if t.hasKind "get" || t.hasKind "set" then .property
  else .method

def methodItems (src : String) (scope : Scope) (c : Cursor) : List Item :=
  match c.node.fieldText? src "name" with
  | none => []
  | some name =>
    Item.declare src c.node scope name (methodKind name c.node)
        (signature src c (c.node.field? "body")) (docstring src c) (marks src c) ::
      Item.within (c.field? "body") (scope.inside name .routine)

/-- A head without the marks that end a binding. -/
def dropBinding (head : String) : String := dropTerminator '=' (Text.dropEnd [';'] head)

/-- Where the head of a function ends. -/
def functionHeadStop (function : Tree) : Nat := function.stopBefore (function.field? "body")

def fieldItems (src : String) (scope : Scope) (c : Cursor) : List Item :=
  match (c.node.fieldText? src "name").or (c.node.fieldText? src "property") with
  | none => []
  | some name =>
    let function := (c.field? "value").filter fun v => isFunction v.node
    let kind := if function.isSome then SymbolKind.method else .field
    let stop := match function with
      | some f => functionHeadStop f.node
      | none => c.node.stopBefore (c.node.field? "value")
    Item.declare src c.node scope name kind
        (dropBinding (headline src (c.node.startAfter ["decorator"]) stop))
        (docstring src c) (marks src c) ::
      Item.within function (scope.inside name .routine)

def memberItems (src : String) (scope : Scope) (c : Cursor) : List Item :=
  match c.node.kind with
  | "method_definition" | "method_signature" | "abstract_method_signature" =>
    methodItems src scope c
  | "public_field_definition" | "field_definition" => fieldItems src scope c
  | "class_static_block" => [.enter c { scope with container := .routine }]
  | _ => []

/-! ## Functions and namespaces -/

def functionItems (src : String) (scope : Scope) (c : Cursor) : List Item :=
  match c.node.fieldText? src "name" with
  | none => []
  | some name =>
    Item.declare src c.node scope name .function (signature src c (c.node.field? "body"))
        (docstring src c) ::
      Item.within (c.field? "body") (scope.inside name .routine)

def namespaceItems (src : String) (scope : Scope) (c : Cursor) : List Item :=
  match (c.node.fieldText? src "name").map Text.unquote with
  | none => []
  | some name =>
    Item.declare src c.node scope name .moduleItem
        (signature src c (c.node.field? "body")) (docstring src c) ::
      Item.within (c.field? "body") (scope.inside name .file)

/-! ## Variables -/

/-- The module that a value loads, as in `require("fs")`. -/
def requiredPath? (src : String) (value : Tree) : Option String := do
  let function ← if value.kind == "call_expression" then value.fieldText? src "function" else none
  let arguments ← if function == "require" then value.field? "arguments" else none
  let first ← arguments.firstNamed?
  if first.kind == "string" then some (Text.unquote (first.text src)) else none

/-- The import that one part of a pattern makes of a module. -/
def patternImport? (src path : String) (part : Tree) : Option Import :=
  match part.kind with
  | "shorthand_property_identifier_pattern" => some (.member path (part.text src) none)
  | "pair_pattern" => do
    let key ← part.fieldText? src "key"
    let value ← part.fieldText? src "value"
    return .member path key (some value)
  | _ => none

/-- The imports made by binding a loaded module to a pattern. -/
def requireImports (src path : String) (pattern : Tree) : List Import :=
  match pattern.kind with
  | "identifier" => [.whole path (some (pattern.text src))]
  | "object_pattern" => pattern.namedChildren.filterMap (patternImport? src path)
  | _ => []

/-- A variable whose head begins at `start`. -/
def variableItems (src : String) (scope : Scope) (declaration declarator : Cursor) (start : Nat)
    (name : String) : List Item :=
  let value := declarator.field? "value"
  match value.filter fun v => isFunction v.node with
  | some function =>
    [Item.declare src declaration.node scope name .function
        (headline src start (functionHeadStop function.node)) (docstring src declaration),
      .enter function (scope.inside name .routine)]
  | none =>
    let symbol :=
      if scope.container = .routine then []
      else
        let stop := declarator.node.stopBefore (value.map (·.node))
        [Item.declare src declaration.node scope name .moduleItem
          (dropBinding (headline src start stop)) (docstring src declaration)]
    symbol ++ Item.within value scope

/-- What one declarator of a declaration gives: imports, or a variable if it binds a name. -/
def declaratorItems (src : String) (scope : Scope) (declaration declarator : Cursor)
    (start : Nat) : List Item :=
  match declarator.node.field? "name" with
  | none => []
  | some pattern =>
    match (declarator.node.field? "value").bind (requiredPath? src) with
    | some path => (requireImports src path pattern).map Item.imports
    | none =>
      if pattern.kind == "identifier" then
        variableItems src scope declaration declarator start (pattern.text src)
      else []

/-- The variables of a declaration. The head of the first begins with the declaration. -/
def declarationItems (src : String) (scope : Scope) (c : Cursor) : List Item :=
  match c.namedChildren.filter fun d => d.node.kind == "variable_declarator" with
  | [] => []
  | first :: rest =>
    declaratorItems src scope c first (headStart c) ++
      rest.flatMap fun d => declaratorItems src scope c d d.node.start

/-! ## Imported names -/

def specifierImport? (src path kind : String) (specifier : Tree) : Option Import := do
  let name ← if specifier.kind == kind then specifier.fieldText? src "name" else none
  return .member path (Text.unquote name) (specifier.fieldText? src "alias")

/-- The imports made by one part of an import clause. -/
def clauseImports (src path : String) (part : Tree) : List Import :=
  match part.kind with
  | "identifier" => [.whole path (some (part.text src))]
  | "namespace_import" =>
    (part.ofKind? "identifier").toList.map fun name => .whole path (some (name.text src))
  | "named_imports" => part.namedChildren.filterMap (specifierImport? src path "import_specifier")
  | _ => []

/-- The import that a clause such as `fs = require("fs")` makes. -/
def requireClauseImport? (src : String) (clause : Tree) : Option Import := do
  let name ← clause.firstNamed?.filter fun t => t.kind == "identifier"
  let path ← clause.fieldText? src "source"
  return .whole (Text.unquote path) (some (name.text src))

def statementImports (src : String) (t : Tree) : List Import :=
  match t.ofKind? "import_require_clause" with
  | some clause => (requireClauseImport? src clause).toList
  | none =>
    match (t.fieldText? src "source").map Text.unquote with
    | none => []
    | some path =>
      match t.ofKind? "import_clause" with
      | some clause => clause.namedChildren.flatMap (clauseImports src path)
      | none => [.whole path none]

/-- The imports that exporting from the module at `path` makes. -/
def exportImports (src path : String) (t : Tree) : List Import :=
  match t.ofKind? "export_clause", t.ofKind? "namespace_export" with
  | some clause, _ => clause.namedChildren.filterMap (specifierImport? src path "export_specifier")
  | none, some space =>
    [.whole path (space.firstNamed?.map fun name => Text.unquote (name.text src))]
  | none, none => [.member path "*" none]

/-! ## The dialect -/

def statementItems (src : String) (scope : Scope) (c : Cursor) : List Item :=
  match c.node.kind with
  | "import_statement" => (statementImports src c.node).map Item.imports
  | "export_statement" =>
    match c.node.fieldText? src "source" with
    | some path => (exportImports src (Text.unquote path) c.node).map Item.imports
    | none => [.enter c scope]
  | "class_declaration" | "abstract_class_declaration" => classItems src scope c
  | "interface_declaration" => interfaceItems src scope c
  | "enum_declaration" => enumItems src scope c
  | "type_alias_declaration" => typeAliasItems src scope c
  | "function_declaration" | "generator_function_declaration" => functionItems src scope c
  | "lexical_declaration" | "variable_declaration" => declarationItems src scope c
  | "internal_module" | "module" => namespaceItems src scope c
  | _ => [.enter c scope]

def rule (src : String) : Rule := fun scope c =>
  if scope.container = .type then memberItems src scope c else statementItems src scope c

def isHead (t : Tree) : Bool := ["identifier", "this", "super"].contains t.kind

def isPath (t : Tree) : Bool := t.isChain isHead ["member_expression"] "object"

def callOf (src : String) (target : Tree) (arguments : Nat) : CallSite :=
  match target.kind with
  | "identifier" | "import" => .direct (target.text src) .function arguments
  | "super" => .direct "super" .constructor arguments
  | "member_expression" =>
    if isPath target then
      let receiver := (target.fieldText? src "object").getD ""
      .direct (target.text src) (CallSite.memberKind selfWords receiver) arguments
    else .dynamic arguments
  | _ => .dynamic arguments

def constructionOf (src : String) (target : Tree) (arguments : Nat) : CallSite :=
  if isPath target then .direct (Text.dropTypeArguments (target.text src)) .constructor arguments
  else .dynamic arguments

def site? (src : String) (_modules : List String) (t : Tree) : Option CallSite :=
  let arguments := CallSite.countArguments (t.field? "arguments")
  match t.kind with
  | "call_expression" => (t.field? "function").map fun target => callOf src target arguments
  | "new_expression" =>
    (t.field? "constructor").map fun target => constructionOf src target arguments
  | _ => none

def dialect : Dialect where
  docstring src root :=
    Comments.leadingBlockSummary src ["hash_bang_line"] ["import_statement"] root
  rule
  site?

end CodeOutline.TypeScript
