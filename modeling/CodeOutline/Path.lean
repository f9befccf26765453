import CodeOutline.Text.Basic

/-!
# Paths

A path is a text with slashes. Its components are the pieces between them; empty pieces and single
dots say nothing and are left out.
-/

namespace CodeOutline.Path

def isAbsolute (path : String) : Bool := Text.startsWith "/" path

def components (path : String) : List String :=
  (Text.pieces ['/'] path).filter fun piece => piece != "" && piece != "."

/-- The last component, if it names a file or directory and does not lead up. -/
def fileName? (path : String) : Option String :=
  match (components path).getLast? with
  | some name => if name == ".." then none else some name
  | none => none

/-- What follows the last dot of the file name. A dot that the name begins with is not counted. -/
def extension? (path : String) : Option String := do
  let name ← fileName? path
  let (stem, extension) ← Text.cutLast? "." name
  if stem.isEmpty then none else some extension

/-- One path below another. -/
def join (base rest : String) : String :=
  if isAbsolute rest || base.isEmpty then rest
  else if Text.endsWith "/" base then base ++ rest
  else base ++ "/" ++ rest

end CodeOutline.Path
