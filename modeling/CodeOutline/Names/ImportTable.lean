import CodeOutline.Names.Rules
import CodeOutline.Outline.Reference
import CodeOutline.Dictionary

/-!
# Import tables

The names that a file's imports bind, each with the path it stands for. Where two imports bind one
name, the later one counts.
-/

namespace CodeOutline

/-- The name by which a package at the given path is known: the last segment of the path, or the one
before it if the last is a version such as `v2`, up to its first dot. -/
def packageName (path : String) : String :=
  let segments := (Text.pieces ['/'] (Text.dropEnd ['/'] path)).reverse
  let last := segments.headD ""
  let segment :=
    match last.toList with
    | 'v' :: c :: cs =>
      if (c :: cs).all fun d => '0' ≤ d && d ≤ '9' then (segments.drop 1).headD last else last
    | _ => last
  Text.firstPiece ['.'] segment

/-- The last segment of a path that is not empty, whatever separates the segments. -/
def trailingSegment (path : String) : String :=
  ((Text.pieces ['.', '/', '\\', ':'] path).reverse.find? fun piece => !piece.isEmpty).getD path

namespace Import

/-- What the import of a whole module binds. -/
def wholeBinding? (language : Language) (i : Import) : Option (String × String) :=
  match i.asName with
  | some asName =>
    if language == .go && (asName == "_" || asName == ".") then none else some (asName, i.path)
  | none =>
    match language with
    | .python =>
      -- `import a.b` binds `a`, which stands for the package `a`
      let head := Text.firstPiece ['.'] i.path
      if head.isEmpty then none else some (head, head)
    | .typescript | .tsx | .javascript | .csharp => none
    | .go => some (packageName i.path, i.path)
    | .java | .rust | .php =>
      let name := trailingSegment i.path
      if name.isEmpty then none else some (name, i.path)

/-- What a member of the imported module stands for. -/
def memberTarget (rules : NameRules) (i : Import) (name : String) : String :=
  if i.path.isEmpty || Text.endsWith "." i.path then i.path ++ name
  else i.path ++ rules.memberJoin ++ name

/-- The names that an import binds, each with what it stands for. -/
def bindings (language : Language) (i : Import) : List (String × String) :=
  if i.names.isEmpty then (i.wholeBinding? language).toList
  else (i.names.filter (· != "*")).map fun name =>
    (i.asName.getD name, i.memberTarget (NameRules.ofLanguage language) name)

end Import

/-- The names bound in a file. -/
abbrev ImportTable := Dictionary

namespace ImportTable

def ofImports (language : Language) (imports : List Import) : ImportTable :=
  Dictionary.ofList (imports.flatMap (Import.bindings language))

end ImportTable

end CodeOutline
