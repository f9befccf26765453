import CodeOutline.Dictionary
import CodeOutline.Text.Basic

/-!
# Symbols

A symbol is one declared entity. Its name is the path through the declarations around it, joined
by dots, and its lines are counted from one, both ends included.
-/

namespace CodeOutline

inductive SymbolKind where
  | classType
  | interfaceType
  | enumType
  /-- A struct or record. -/
  | structType
  /-- A trait or mixin. -/
  | traitType
  | function
  | method
  | constructor
  | field
  | property
  | typeAlias
  /-- A variable or constant outside any type, or a module or namespace block. -/
  | moduleItem
deriving DecidableEq

namespace SymbolKind

def all : List SymbolKind :=
  [classType, interfaceType, enumType, structType, traitType, function, method, constructor, field,
    property, typeAlias, moduleItem]

def name : SymbolKind → String
  | classType => "class"
  | interfaceType => "interface"
  | enumType => "enum"
  | structType => "struct"
  | traitType => "trait"
  | function => "function"
  | method => "method"
  | constructor => "constructor"
  | field => "field"
  | property => "property"
  | typeAlias => "type_alias"
  | moduleItem => "module"

def ofName? (name : String) : Option SymbolKind := all.find? fun k => k.name == name

/-- The kinds whose declarations hold declarations of members. -/
def isType : SymbolKind → Bool
  | classType | interfaceType | enumType | structType | traitType => true
  | _ => false

def isRoutine : SymbolKind → Bool
  | function | method | constructor => true
  | _ => false

/-- The kinds whose bodies hold calls: routines, and properties with accessors. -/
def isCaller (k : SymbolKind) : Bool := k.isRoutine || k == property

end SymbolKind

/-- What is written on a declaration to mark it, such as an attribute with its arguments. Arguments
are kept as source text, by name or by position. -/
structure Mark where
  name : String
  arguments : Dictionary := ∅
deriving DecidableEq

structure Symbol where
  name : String
  kind : SymbolKind
  /-- The head of the declaration, on one line. -/
  signature : String
  docstring : Option String := none
  lineStart : Nat
  lineEnd : Nat
  marks : List Mark := []
deriving DecidableEq

namespace Symbol

/-- The name without the declarations around it. -/
def shortName (s : Symbol) : String := Text.lastPiece ['.'] s.name

/-- The name of the declaration around the symbol, if there is one. -/
def parentPath? (s : Symbol) : Option String := (Text.cutLast? "." s.name).map (·.1)

end Symbol

end CodeOutline
