import CodeOutline.Dialect.Basic

/-!
# Rust

Functions, structs, enums, traits, modules, constants and type aliases. The members of an `impl`
block are named after the implementing type, and an implemented trait is a parent of it.
Documentation and attributes stand before an item, among its siblings.

A `use` declaration holds a tree of paths: `a::{b, c::d as e, self, *}`. `expand` lists the imports
that such a tree makes, one for each leaf.
-/

namespace CodeOutline.Rust

/-! ## Documentation -/

/-- A comment that documents the item after it. -/
def isDoc (text : String) : Bool :=
  (Text.startsWith "///" text && !Text.startsWith "////" text) ||
    (Text.startsWith "/**" text && !Text.startsWith "/**/" text)

def docstring (src : String) (c : Cursor) : Option String :=
  match (Comments.before src isDoc ["attribute_item"] c).map (Tree.text src) with
  | [] => none
  | [only] =>
    if Text.startsWith "/**" only then Summary.ofBlockComment only
    else Summary.ofLineComments [only]
  | lines => Summary.ofLineComments lines

/-- The documentation of a file, after the lines in `taken`, which come last first. A block counts
only if no line came before it. -/
def innerDocs (src : String) (taken : List String) : List Tree → Option String
  | [] => Summary.ofLineComments taken.reverse
  | t :: rest =>
    let text := t.text src
    if t.kind == "line_comment" && Text.startsWith "//!" text then
      innerDocs src (text :: taken) rest
    else if t.kind == "block_comment" && Text.startsWith "/*!" text then
      if taken.isEmpty then Summary.ofBlockComment text
      else Summary.ofLineComments taken.reverse
    else if ["line_comment", "block_comment", "inner_attribute_item"].contains t.kind then
      innerDocs src taken rest
    else Summary.ofLineComments taken.reverse

/-! ## Attributes -/

/-- The mark that an attribute is. Documentation is no mark. -/
def markOf? (text : String) : Option Mark := do
  let inner ← (Text.afterStart? "#[" (Text.trim text)).bind (Text.beforeEnd? "]")
  let inner := Text.trim inner
  let stops := fun (c : Char) => c == '(' || c == '='
  let name := Text.trim (String.ofList (inner.toList.takeWhile fun c => !stops c))
  if name.isEmpty || name == "doc" then none
  else
    let rest := Text.trim (String.ofList (inner.toList.dropWhile fun c => !stops c))
    return { name, arguments := Argument.dictionary ((Text.afterStart? "=" rest).getD rest) }

/-- The marks on an item, among the attributes and comments before it. -/
def marks (src : String) (c : Cursor) : List Mark :=
  let above := c.before.takeWhile fun t =>
    ["attribute_item", "line_comment", "block_comment"].contains t.kind
  ((above.filter fun t => t.kind == "attribute_item").filterMap fun t =>
    markOf? (t.text src)).reverse

/-! ## Items -/

/-- An item whose head ends where `body` begins. -/
def signature (src : String) (t : Tree) (body : Option Tree) : String :=
  dropTerminator ';' (t.headlineFrom src t.start body)

def declaration (src : String) (c : Cursor) (scope : Scope) (name : String) (kind : SymbolKind)
    (signature : String) : Item :=
  Item.declare src c.node scope name kind signature (docstring src c) (marks src c)

def routineItems (src : String) (scope : Scope) (c : Cursor) : List Item :=
  match c.node.fieldText? src "name" with
  | none => []
  | some name =>
    let kind := if scope.container = .type then SymbolKind.method else .function
    declaration src c scope name kind (signature src c.node (c.node.field? "body")) ::
      Item.within (c.field? "body") (scope.inside name .routine)

/-- A field of a struct or a variant of an enum. -/
def memberItem? (src : String) (scope : Scope) (kind : String) (c : Cursor) : Option Item := do
  let name ← if c.node.kind == kind then c.node.fieldText? src "name" else none
  return declaration src c scope name .field (headline src c.node.start c.node.stop)

def structItems (src : String) (scope : Scope) (c : Cursor) : List Item :=
  match c.node.fieldText? src "name" with
  | none => []
  | some name =>
    let list := (c.field? "body").filter fun b => b.node.kind == "field_declaration_list"
    declaration src c scope name .structType
        (signature src c.node (c.node.field? "body")) ::
      ((list.map Cursor.namedChildren).getD []).filterMap
        (memberItem? src (scope.inside name .type) "field_declaration")

def enumItems (src : String) (scope : Scope) (c : Cursor) : List Item :=
  match c.node.fieldText? src "name" with
  | none => []
  | some name =>
    declaration src c scope name .enumType
        (signature src c.node (c.node.field? "body")) ::
      (((c.field? "body").map Cursor.namedChildren).getD []).filterMap
        (memberItem? src (scope.inside name .type) "enum_variant")

/-- The traits in a list of bounds. Lifetimes and relaxed bounds are none. -/
def boundNames (bounds : String) : List String :=
  let list := Text.dropStart [':'] (Text.trim bounds)
  ((Text.splitTop '+' true list).map Text.trim).filter fun bound =>
    !Text.startsWith "'" bound && !Text.startsWith "?" bound

def supertraits (src child : String) (t : Tree) : List Item :=
  match t.fieldText? src "bounds" with
  | none => []
  | some bounds => (boundNames bounds).flatMap (Item.inherit child)

def traitItems (src : String) (scope : Scope) (c : Cursor) : List Item :=
  match c.node.fieldText? src "name" with
  | none => []
  | some name =>
    let qualified := scope.qualify name
    declaration src c scope name .traitType (signature src c.node (c.node.field? "body")) ::
      (supertraits src qualified c.node ++
        Item.within (c.field? "body") (scope.inside name .type))

/-- The name of an implementing type: without references and type arguments, on one line. -/
def implementer (type : String) : String :=
  Text.collapse (Text.dropTypeArguments (Text.dropStart ['&'] type))

/-- The child of the edge to an implemented trait. A path is taken as it is. -/
def owner (scope : Scope) (type : String) : String :=
  if Text.hasPart "::" type then type else scope.qualify type

def implItems (src : String) (scope : Scope) (c : Cursor) : List Item :=
  match (c.node.fieldText? src "type").map implementer with
  | none => []
  | some type =>
    if type.isEmpty then []
    else
      let implemented := match c.node.fieldText? src "trait" with
        | none => []
        | some text => Item.inherit (owner scope type) (Text.dropStart ['!'] text)
      implemented ++ Item.within (c.field? "body") (scope.inside type .type)

def moduleItems (src : String) (scope : Scope) (c : Cursor) : List Item :=
  match c.node.fieldText? src "name" with
  | none => []
  | some name =>
    declaration src c scope name .moduleItem
        (signature src c.node (c.node.field? "body")) ::
      Item.within (c.field? "body") (scope.inside name .file)

def constantItems (src : String) (scope : Scope) (c : Cursor) : List Item :=
  (c.node.fieldText? src "name").toList.map fun name =>
    let kind := if scope.container = .type then SymbolKind.field else .moduleItem
    declaration src c scope name kind
      (dropTerminator '=' (signature src c.node (c.node.field? "value")))

def typeAliasItems (src : String) (scope : Scope) (c : Cursor) : List Item :=
  (c.node.fieldText? src "name").toList.map fun name =>
    declaration src c scope name .typeAlias (signature src c.node none)

/-! ## Use trees -/

/-- The path through `root` to `rest`. -/
def joinPath (root rest : String) : String :=
  if root.isEmpty then rest else if rest.isEmpty then root else s!"{root}::{rest}"

/-- The import that a leaf makes below `root`. -/
def leafImport? (root leaf : String) : Option Import :=
  let (path, asName) := match Text.cut? " as " leaf with
    | some (path, name) => (Text.trim path, some (Text.trim name))
    | none => (leaf, none)
  if path = "self" then
    if root.isEmpty then none else some (.whole root asName)
  else
    let full := joinPath root path
    match Text.cutLast? "::" full with
    | some (path, name) => some (.member path name asName)
    | none => some (.whole full asName)

/-- What stands before the braces of a group, and what stands between them. -/
def group? (tree : List Char) : Option (List Char × List Char) :=
  if tree.getLast? = some '\x7d' then
    (Chars.cut? ['\x7b'] tree).map fun (base, rest) => (base, rest.dropLast)
  else none

theorem length_of_group? {tree base inner : List Char} (h : group? tree = some (base, inner)) :
    inner.length < tree.length := by
  unfold group? at h
  split at h
  · obtain ⟨⟨before, rest⟩, hcut, heq⟩ := Option.map_eq_some_iff.mp h
    obtain ⟨rfl, rfl⟩ := Prod.mk.inj heq
    rw [Chars.eq_append_of_cut? hcut]
    simp only [List.length_append, List.length_dropLast, List.length_cons]
    omega
  · simp at h

/-- A use tree without the blanks around it and the separators before it. -/
def bare (text : List Char) : List Char :=
  Chars.trim (Chars.dropAll "::".toList (Chars.trim text))

theorem length_bare_le (text : List Char) : (bare text).length ≤ text.length :=
  Nat.le_trans (Chars.length_trim_le _)
    (Nat.le_trans (Chars.length_dropAll_le _ _) (Chars.length_trim_le _))

/-- The imports that the leaves of a use tree make, where `root` is the path to the tree. -/
def expand (root : String) (text : List Char) : List Import :=
  let tree := bare text
  if tree.isEmpty then []
  else match _h : group? tree with
    | some (base, inner) =>
      let root := joinPath root (Text.dropAllEnd "::" (Text.trim (String.ofList base)))
      (Chars.splitTop ',' false inner).attach.flatMap fun ⟨part, _⟩ => expand root part
    | none => (leafImport? root (String.ofList tree)).toList
termination_by text.length
decreasing_by
  next hpart =>
    exact Nat.lt_of_le_of_lt (Chars.length_of_mem_splitTopFrom hpart)
      (Nat.lt_of_lt_of_le (length_of_group? _h) (length_bare_le text))

def useItems (src : String) (t : Tree) : List Item :=
  match t.fieldText? src "argument" with
  | none => []
  | some text => (expand "" (Text.collapse text).toList).map Item.imports

def externItems (src : String) (t : Tree) : List Item :=
  (t.fieldText? src "name").toList.map fun name =>
    Item.imports (.whole name (t.fieldText? src "alias"))

/-! ## The dialect -/

def rule (src : String) : Rule := fun scope c =>
  match c.node.kind with
  | "use_declaration" => useItems src c.node
  | "extern_crate_declaration" => externItems src c.node
  | "function_item" | "function_signature_item" => routineItems src scope c
  | "struct_item" | "union_item" => structItems src scope c
  | "enum_item" => enumItems src scope c
  | "trait_item" => traitItems src scope c
  | "impl_item" => implItems src scope c
  | "mod_item" => moduleItems src scope c
  | "const_item" | "static_item" =>
    if scope.container = .routine then [.enter c scope] else constantItems src scope c
  | "type_item" | "associated_type" => typeAliasItems src scope c
  | _ => [.enter c scope]

def isHead (t : Tree) : Bool := t.kind == "identifier" || t.kind == "self"

/-- The kind of a call through a path. -/
def pathCallKind (path name : String) : CallKind :=
  let last := ((Text.cutLast? "::" path).map (·.2)).getD path
  if Text.startsUppercase name then .constructor
  else if Text.startsUppercase last then .staticMethod
  else .function

def callOf (src : String) (target : Tree) (arguments : Nat) : CallSite :=
  let text := target.text src
  match target.kind with
  | "identifier" =>
    .direct text (if Text.startsUppercase text then .constructor else .function) arguments
  | "scoped_identifier" =>
    let name := (target.fieldText? src "name").getD ""
    let path := ((target.fieldText? src "path").map Text.dropTypeArguments).getD ""
    .direct (Text.dropTypeArguments text) (pathCallKind path name) arguments
  | "field_expression" =>
    if target.isChain isHead ["field_expression"] "value" then .direct text .method arguments
    else .dynamic arguments
  | _ => .dynamic arguments

/-- What a call names as its function, without explicit type arguments. -/
def target? (t : Tree) : Option Tree :=
  match t.field? "function" with
  | none => none
  | some function =>
    if function.kind == "generic_function" then function.field? "function" else some function

def site? (src : String) (_modules : List String) (t : Tree) : Option CallSite :=
  match t.kind with
  | "call_expression" =>
    (target? t).map fun target =>
      callOf src target (CallSite.countArguments (t.field? "arguments"))
  | "struct_expression" =>
    (t.fieldText? src "name").map fun name =>
      .direct (Text.dropTypeArguments name) .constructor (CallSite.countArguments (t.field? "body"))
  | _ => none

def dialect : Dialect where
  docstring src root := innerDocs src [] root.children
  rule
  site?

end CodeOutline.Rust
