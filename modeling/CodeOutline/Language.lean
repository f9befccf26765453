import CodeOutline.Path
import CodeOutline.Text.Lowercase

/-!
# Languages

The languages that can be outlined, with the names and file extensions they go by. Names and
extensions are compared without regard to case.
-/

namespace CodeOutline

inductive Language where
  | python
  | java
  | typescript
  | tsx
  | javascript
  | go
  | rust
  | csharp
  | php
deriving DecidableEq

namespace Language

def all : List Language := [python, java, typescript, tsx, javascript, go, rust, csharp, php]

/-- The name by which outlines refer to the language. -/
def name : Language → String
  | python => "python"
  | java => "java"
  | typescript => "typescript"
  | tsx => "tsx"
  | javascript => "javascript"
  | go => "go"
  | rust => "rust"
  | csharp => "csharp"
  | php => "php"

/-- Other names that are understood. -/
def aliases : Language → List String
  | python => ["py"]
  | typescript => ["ts"]
  | javascript => ["js", "jsx"]
  | go => ["golang"]
  | rust => ["rs"]
  | csharp => ["c#", "cs"]
  | java | tsx | php => []

/-- File extensions, without the dot. -/
def extensions : Language → List String
  | python => ["py", "pyi"]
  | java => ["java"]
  | typescript => ["ts", "mts", "cts"]
  | tsx => ["tsx"]
  | javascript => ["js", "jsx", "mjs", "cjs"]
  | go => ["go"]
  | rust => ["rs"]
  | csharp => ["cs"]
  | php => ["php"]

/-- The names and aliases that settings may use. -/
def identifiers : List String :=
  ["python", "py", "java", "typescript", "ts", "tsx", "javascript", "js", "jsx", "go", "golang",
    "rust", "rs", "csharp", "c#", "cs", "php"]

/-- The part of a file that may be damaged before the file is refused. In a language where
indentation counts, one mistake spoils all that follows, so less is allowed. -/
def errorRatio : Language → Float
  | python => 0.3
  | _ => 0.5

/-- The language with a name or alias. -/
def ofName? (id : String) : Option Language :=
  let id := Text.lowercase (Text.trim id)
  all.find? fun l => l.name == id || l.aliases.contains id

/-- The language with a file extension, with or without leading dots. -/
def ofExtension? (extension : String) : Option Language :=
  let extension := Text.lowercase (Text.dropStart ['.'] extension)
  all.find? fun l => l.extensions.contains extension

def ofPath? (path : String) : Option Language := (Path.extension? path).bind ofExtension?

end Language

end CodeOutline
