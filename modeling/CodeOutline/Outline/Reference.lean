/-!
# References

What a file takes from elsewhere: the names it imports, the types its types inherit from, and the
calls it makes.
-/

namespace CodeOutline

/-- One import of one name. -/
structure Import where
  /-- The imported path as written. -/
  path : String
  /-- The imported members; none if the module as a whole is imported. -/
  names : List String := []
  /-- Whether the import picks members. -/
  isFrom : Bool
  /-- The local name that the import gives. -/
  asName : Option String := none
deriving DecidableEq

namespace Import

/-- The import of a module as a whole. -/
def whole (path : String) (asName : Option String) : Import :=
  { path, isFrom := false, asName }

/-- The import of one member of a module. -/
def member (path name : String) (asName : Option String) : Import :=
  { path, names := [name], isFrom := true, asName }

/-- The local name that the text of the import shows. -/
def boundName? (i : Import) : Option String := i.asName.or i.names.head?

end Import

structure Inheritance where
  child : String
  parent : String
deriving DecidableEq

/-- The shape of a call. -/
inductive CallKind where
  | function
  | method
  | staticMethod
  | constructor
  /-- A call of a computed value. -/
  | dynamic
deriving DecidableEq

namespace CallKind

def all : List CallKind := [function, method, staticMethod, constructor, dynamic]

def name : CallKind → String
  | function => "function"
  | method => "method"
  | staticMethod => "static_method"
  | constructor => "constructor"
  | dynamic => "dynamic"

def ofName? (name : String) : Option CallKind := all.find? fun k => k.name == name

end CallKind

structure Call where
  /-- The routine around the call, or `Call.outermost`. -/
  caller : String
  /-- What is called, if the text of the call says it. -/
  callee : Option String
  line : Nat
  kind : CallKind
  arguments : Nat
deriving DecidableEq

namespace Call

/-- The caller of a call outside every routine. -/
def outermost : String := "<module>"

end Call

end CodeOutline
