import CodeOutline.Dialect.Basic

/-!
# Java

Types with their methods, constructors, fields and constants. The parameters of a record are fields
of it. Marks stand among the modifiers of a declaration, and its head begins after the last of them.
-/

namespace CodeOutline.Java

def selfWords : List String := ["this", "super"]

def markKinds : List String := ["annotation", "marker_annotation"]

/-- The nodes of the marks on a declaration. -/
def markNodes (t : Tree) : List Tree :=
  (((t.ofKind? "modifiers").map Tree.children).getD []).filter fun m => markKinds.contains m.kind

def marks (src : String) (t : Tree) : List Mark :=
  (markNodes t).filterMap fun m =>
    (m.fieldText? src "name").map fun name =>
      { name
        arguments := ((m.fieldText? src "arguments").map fun text =>
          Argument.dictionary text (some "value")).getD ∅ }

/-- The head of a declaration, from its last mark to its body. -/
def signature (src : String) (t : Tree) (body : Option Tree) : String :=
  let start := (((markNodes t).getLast?).map Tree.stop).getD t.start
  dropTerminator ';' (t.headlineFrom src start body)

def docstring (src : String) (c : Cursor) : Option String := Comments.blockSummary src [] c

/-! ## Declarations -/

def typeKind : String → SymbolKind
  | "interface_declaration" | "annotation_type_declaration" => .interfaceType
  | "enum_declaration" => .enumType
  | "record_declaration" => .structType
  | _ => .classType

def superclass (src child : String) (t : Tree) : List Item :=
  match t.fieldText? src "superclass" with
  | none => []
  | some text => Item.inherit child (Text.dropAll "extends" (Text.trim text))

/-- The names in a clause, which may begin with a keyword. -/
def clauseNames (text : String) : List String :=
  let text := Text.trim text
  Text.splitTop ',' true
    ((Text.afterStart? "implements" text |>.or (Text.afterStart? "extends" text)).getD text)

def interfaces (src child : String) (t : Tree) : List Item :=
  match (t.field? "interfaces").or (t.ofKind? "extends_interfaces") with
  | none => []
  | some clause => (clauseNames (clause.text src)).flatMap (Item.inherit child)

/-- The fields that the parameters of a record are. -/
def components (src : String) (scope : Scope) (t : Tree) : List Item :=
  let parameters :=
    if t.kind == "record_declaration" then ((t.field? "parameters").map Tree.namedChildren).getD []
    else []
  (parameters.filter fun p => p.kind == "formal_parameter").filterMap fun p =>
    (p.fieldText? src "name").map fun name =>
      Item.declare src p scope name .field (headline src p.start p.stop)

def typeItems (src : String) (scope : Scope) (c : Cursor) : List Item :=
  match c.node.fieldText? src "name" with
  | none => []
  | some name =>
    let qualified := scope.qualify name
    let inner := scope.inside name .type
    Item.declare src c.node scope name (typeKind c.node.kind)
        (signature src c.node (c.node.field? "body")) (docstring src c) (marks src c.node) ::
      (superclass src qualified c.node ++ interfaces src qualified c.node ++
        components src inner c.node ++ Item.within (c.field? "body") inner)

def routineItems (src : String) (scope : Scope) (c : Cursor) : List Item :=
  match c.node.fieldText? src "name" with
  | none => []
  | some name =>
    let kind := if c.node.kind == "method_declaration" then SymbolKind.method else .constructor
    Item.declare src c.node scope name kind
        (signature src c.node (c.node.field? "body")) (docstring src c) (marks src c.node) ::
      Item.within (c.field? "body") (scope.inside name .routine)

def fieldItems (src : String) (scope : Scope) (c : Cursor) : List Item :=
  (c.node.fields "declarator").filterMap fun declarator =>
    (declarator.fieldText? src "name").map fun name =>
      Item.declare src c.node scope name .field (signature src c.node none)
        (docstring src c) (marks src c.node)

def constantItems (src : String) (scope : Scope) (c : Cursor) : List Item :=
  match c.node.fieldText? src "name" with
  | none => []
  | some name =>
    Item.declare src c.node scope name .field name (docstring src c)
        (marks src c.node) ::
      Item.within (c.field? "body") (scope.inside name .type)

/-- A module, which goes by its own name wherever it stands. -/
def moduleItems (src : String) (c : Cursor) : List Item :=
  match c.node.fieldText? src "name" with
  | none => []
  | some name =>
    [Item.declare src c.node {} name .moduleItem (signature src c.node (c.node.field? "body"))
      (docstring src c) (marks src c.node)]

def packageItems (src : String) (t : Tree) : List Item :=
  let isName := fun (n : Tree) => n.kind == "identifier" || n.kind == "scoped_identifier"
  (t.namedChildren.find? isName).toList.map fun name => .found (.package (name.text src))

/-- The import that a statement makes. A path with a dot picks a member. -/
def importOf (statement : String) : Import :=
  let path := Text.trimStart (Text.dropAll "import" (Text.trim statement))
  let path := Text.compact (Text.dropEnd [';'] (Text.dropAll "static " path))
  match Text.cutLast? "." path with
  | some (path, name) => .member path name none
  | none => .whole path none

/-! ## The dialect -/

def rule (src : String) : Rule := fun scope c =>
  match c.node.kind with
  | "package_declaration" => packageItems src c.node
  | "import_declaration" => [Item.imports (importOf (c.node.text src))]
  | "class_declaration" | "interface_declaration" | "enum_declaration" | "record_declaration"
  | "annotation_type_declaration" => typeItems src scope c
  | "method_declaration" | "constructor_declaration" | "compact_constructor_declaration" =>
    routineItems src scope c
  | "field_declaration" | "constant_declaration" => fieldItems src scope c
  | "enum_constant" => constantItems src scope c
  | "module_declaration" => moduleItems src c
  | _ => [.enter c scope]

def isHead (t : Tree) : Bool :=
  ["identifier", "this", "super", "type_identifier", "scoped_identifier"].contains t.kind

def methodCall (src name : String) (receiver : Option Tree) (arguments : Nat) : CallSite :=
  match receiver with
  | none => .direct name .function arguments
  | some object =>
    if object.isChain isHead ["field_access"] "object" then
      let receiver := object.text src
      .direct s!"{receiver}.{name}" (CallSite.memberKind selfWords receiver) arguments
    else .dynamic arguments

def site? (src : String) (_modules : List String) (t : Tree) : Option CallSite :=
  let arguments := CallSite.countArguments (t.field? "arguments")
  match t.kind with
  | "method_invocation" =>
    (t.fieldText? src "name").map fun name => methodCall src name (t.field? "object") arguments
  | "object_creation_expression" =>
    (t.fieldText? src "type").map fun type =>
      .direct (Text.dropTypeArguments type) .constructor arguments
  | "explicit_constructor_invocation" =>
    (t.fieldText? src "constructor").map fun target => .direct target .constructor arguments
  | _ => none

def dialect : Dialect where
  docstring src root := Comments.leadingBlockSummary src []
    ["package_declaration", "import_declaration", "module_declaration"] root
  rule
  package := Dialect.lastPackage
  site?

end CodeOutline.Java
