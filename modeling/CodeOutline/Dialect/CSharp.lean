import CodeOutline.Dialect.Basic

/-!
# C#

Types with their members, and functions local to methods. The parameters of a type are properties
of it. Documentation is written in XML comments. Attribute lists stand inside a declaration, and
its head begins after them.
-/

namespace CodeOutline.CSharp

def selfWords : List String := ["this", "base"]

def namespaceKinds : List String := ["namespace_declaration", "file_scoped_namespace_declaration"]

/-- Three slashes, and not four. -/
def isDoc (text : String) : Bool := Text.startsWith "///" text && !Text.startsWith "////" text

/-- The summary of a run of comments, if there is one. -/
def summary (src : String) (comments : List Tree) : Option String :=
  if comments.isEmpty then none else Summary.ofXmlComments (comments.map (Tree.text src))

def docstring (src : String) (c : Cursor) : Option String :=
  summary src (Comments.before src isDoc [] c)

def mark? (src : String) (t : Tree) : Option Mark := do
  let name ← if t.kind == "attribute" then t.fieldText? src "name" else none
  let arguments := (t.ofKind? "attribute_argument_list").map fun list =>
    Argument.dictionary (list.text src)
  return { name, arguments := arguments.getD ∅ }

def marks (src : String) (t : Tree) : List Mark :=
  (t.children.filter fun list => list.kind == "attribute_list").flatMap fun list =>
    list.namedChildren.filterMap (mark? src)

/-- Where the head of a declaration begins. -/
def headStart (t : Tree) : Nat := t.startAfter ["attribute_list"]

/-- A declaration whose head ends where `body` begins. -/
def declaration (src : String) (c : Cursor) (scope : Scope) (name : String) (kind : SymbolKind)
    (body : Option Tree) : Item :=
  Item.declare src c.node scope name kind
    (dropTerminator ';' (c.node.headlineFrom src (headStart c.node) body))
    (docstring src c) (marks src c.node)

/-! ## Declarations -/

def typeKind : String → SymbolKind
  | "interface_declaration" => .interfaceType
  | "enum_declaration" => .enumType
  | "struct_declaration" | "record_declaration" | "record_struct_declaration" => .structType
  | _ => .classType

/-- The parents in a list of bases, without the arguments of their constructors. -/
def baseNames (list : String) : List String :=
  (Text.splitTop ',' true (Text.dropStart [':'] (Text.trim list))).map (Text.firstPiece ['('])

def parents (src child : String) (t : Tree) : List Item :=
  match t.ofKind? "base_list" with
  | none => []
  | some list => (baseNames (list.text src)).flatMap (Item.inherit child)

/-- The properties that the parameters of a type are. -/
def parameterItems (src : String) (scope : Scope) (t : Tree) : List Item :=
  let parameters := ((t.ofKind? "parameter_list").map Tree.namedChildren).getD []
  (parameters.filter fun p => p.kind == "parameter").filterMap fun p =>
    (p.fieldText? src "name").map fun name =>
      Item.declare src p scope name .property (headline src p.start p.stop) none
        (marks src p)

def typeItems (src : String) (scope : Scope) (c : Cursor) : List Item :=
  match c.node.fieldText? src "name" with
  | none => []
  | some name =>
    let qualified := scope.qualify name
    let inner := scope.inside name .type
    declaration src c scope name (typeKind c.node.kind) (c.node.field? "body") ::
      (parents src qualified c.node ++ parameterItems src inner c.node ++
        Item.within (c.field? "body") inner)

def routineKind : String → SymbolKind
  | "constructor_declaration" => .constructor
  | "local_function_statement" => .function
  | _ => .method

def routineItems (src : String) (scope : Scope) (c : Cursor) : List Item :=
  match c.node.fieldText? src "name" with
  | none => []
  | some name =>
    let body := (c.field? "body").or (c.ofKind? "arrow_expression_clause")
    let stop := (c.node.field? "initializer").or (c.node.ofKind? "constructor_initializer")
      |>.or (body.map (·.node))
    declaration src c scope name (routineKind c.node.kind) stop ::
      Item.within body (scope.inside name .routine)

/-- A property, or an indexer, which has no name of its own. -/
def propertyItems (src : String) (scope : Scope) (c : Cursor) : List Item :=
  let unnamed := if c.node.kind == "indexer_declaration" then some "this[]" else none
  let stop := (c.node.field? "accessors").or (c.node.ofKind? "accessor_list")
    |>.or (c.node.ofKind? "arrow_expression_clause")
  ((c.node.fieldText? src "name").or unnamed).toList.map fun name =>
    declaration src c scope name .property stop

/-- The head of one field: what all fields of a declaration share, then its own part. -/
def fieldSignature (src : String) (c : Cursor) (binding declarator : Tree) : String :=
  let typeStop := ((binding.field? "type").map Tree.stop).getD declarator.start
  let shared := headline src (headStart c.node) typeStop
  let value := (declarator.field? "value").or (declarator.ofKind? "equals_value_clause")
  let own := declarator.headlineFrom src declarator.start value
  dropTerminator '=' s!"{shared} {own}"

def fieldItems (src : String) (scope : Scope) (c : Cursor) : List Item :=
  match c.node.ofKind? "variable_declaration" with
  | none => []
  | some binding =>
    let declarators := binding.namedChildren.filter fun d => d.kind == "variable_declarator"
    declarators.filterMap fun d =>
      ((d.field? "name").or (d.ofKind? "identifier")).map fun name =>
        Item.declare src c.node scope (name.text src) .field
          (fieldSignature src c binding d) (docstring src c) (marks src c.node)

def namedItems (src : String) (scope : Scope) (kind : SymbolKind) (c : Cursor) : List Item :=
  (c.node.fieldText? src "name").toList.map fun name =>
    declaration src c scope name kind none

/-! ## Imported namespaces -/

/-- The import that a directive makes: of all members of a type, of something under another name, or
of a namespace. -/
def importOf? (directive : String) : Option Import := do
  let text := Text.trim directive
  let text := ((Text.afterStart? "global" text).map Text.trimStart).getD text
  let rest := Text.trim (Text.dropEnd [';'] (Text.trim (← Text.afterStart? "using" text)))
  return match Text.afterStart? "static " rest, Text.cut? "=" rest with
    | some path, _ => .member (Text.compact path) "*" none
    | none, some (name, path) => .whole (Text.compact path) (some (Text.compact name))
    | none, none => .whole (Text.compact rest) none

def namespaceItems (src : String) (scope : Scope) (c : Cursor) : List Item :=
  ((c.node.fieldText? src "name").toList.map fun name => .found (.package name)) ++
    [.enter c scope]

/-! ## The dialect -/

def rule (src : String) : Rule := fun scope c =>
  match c.node.kind with
  | "using_directive" => ((importOf? (c.node.text src)).map Item.imports).toList
  | "namespace_declaration" | "file_scoped_namespace_declaration" => namespaceItems src scope c
  | "class_declaration" | "struct_declaration" | "interface_declaration" | "enum_declaration"
  | "record_declaration" | "record_struct_declaration" => typeItems src scope c
  | "delegate_declaration" => namedItems src scope .typeAlias c
  | "method_declaration" | "constructor_declaration" | "local_function_statement" =>
    routineItems src scope c
  | "property_declaration" | "indexer_declaration" => propertyItems src scope c
  | "field_declaration" | "event_field_declaration" => fieldItems src scope c
  | "enum_member_declaration" => namedItems src scope .field c
  | _ => [.enter c scope]

def isHead (t : Tree) : Bool :=
  ["identifier", "this", "this_expression", "base", "base_expression", "predefined_type",
    "qualified_name", "generic_name"].contains t.kind

def callOf (src : String) (target : Tree) (arguments : Nat) : CallSite :=
  match target.kind with
  | "identifier" | "generic_name" =>
    .direct (Text.dropTypeArguments (target.text src)) .function arguments
  | "member_access_expression" =>
    if target.isChain isHead ["member_access_expression"] "expression" then
      let receiver := (target.fieldText? src "expression").getD ""
      .direct (Text.dropTypeArguments (target.text src)) (CallSite.memberKind selfWords receiver)
        arguments
    else .dynamic arguments
  | _ => .dynamic arguments

/-- What the initializer of a constructor calls. -/
def initializerTarget (text : String) : String :=
  if Text.startsWith "base" (Text.trimStart (Text.dropStart [':'] text)) then "base" else "this"

def site? (src : String) (_modules : List String) (t : Tree) : Option CallSite :=
  let arguments := CallSite.countArguments (t.field? "arguments")
  match t.kind with
  | "invocation_expression" => (t.field? "function").map fun target => callOf src target arguments
  | "object_creation_expression" =>
    (t.fieldText? src "type").map fun type =>
      .direct (Text.dropTypeArguments type) .constructor arguments
  | "constructor_initializer" =>
    some (.direct (initializerTarget (t.text src)) .constructor
      (CallSite.countArguments (t.ofKind? "argument_list")))
  | _ => none

def dialect : Dialect where
  docstring src root := summary src (Comments.leading src isDoc []
    (["using_directive", "extern_alias_directive"] ++ namespaceKinds) root)
  rule
  package := Dialect.firstPackage
  site?

end CodeOutline.CSharp
