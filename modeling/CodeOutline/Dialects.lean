import CodeOutline.Dialect.CSharp
import CodeOutline.Dialect.Go
import CodeOutline.Dialect.Java
import CodeOutline.Dialect.Php
import CodeOutline.Dialect.Python
import CodeOutline.Dialect.Rust
import CodeOutline.Dialect.TypeScript
import CodeOutline.Names.Resolver

/-!
# The dialect of each language

Three of the languages are one dialect.
-/

namespace CodeOutline.Language

def dialect : Language → Dialect
  | python => Python.dialect
  | java => Java.dialect
  | typescript | tsx | javascript => TypeScript.dialect
  | go => Go.dialect
  | rust => Rust.dialect
  | csharp => CSharp.dialect
  | php => Php.dialect

/-- What a file holds, with references resolved. -/
def contents (l : Language) (src : String) (root : Tree) : Contents :=
  (l.dialect.contents src root).resolve l

end CodeOutline.Language
