import CodeOutline.Names.ImportTable
import CodeOutline.Outline.Basic

/-!
# Resolving names

A reference in a file is resolved by its head, the part before the first separator. A head bound by
one of the file's imports is replaced by what it stands for; else a built-in name that the file does
not declare itself is replaced by its qualified form; all else stays as it is. Nothing outside the
file is looked at.
-/

namespace CodeOutline

structure Resolver where
  rules : NameRules
  imports : ImportTable
  /-- The names that the file declares; they hide built-in names. -/
  locals : List String := []

namespace Resolver

def ofImports (language : Language) (imports : List Import) : Resolver where
  rules := NameRules.ofLanguage language
  imports := ImportTable.ofImports language imports

def withLocals (r : Resolver) (names : List String) : Resolver :=
  { r with locals := r.locals ++ names }

/-- The part before the first separator, and the rest with the separator. -/
def cutHead (separators : List (List Char)) : List Char → List Char × List Char
  | [] => ([], [])
  | c :: cs =>
    if separators.any fun sep => sep.isPrefixOf (c :: cs) then ([], c :: cs)
    else
      let (head, rest) := cutHead separators cs
      (c :: head, rest)

def split (r : Resolver) (reference : String) : String × String :=
  let (head, rest) := cutHead (r.rules.separators.map String.toList) reference.toList
  (String.ofList head, String.ofList rest)

/-- Whether a head stands for the object at hand. It may be called, or be optional. -/
def isSelf (r : Resolver) (head : String) : Bool :=
  r.rules.selfWords.contains (Text.dropEnd ['?'] (Text.dropAllEnd "()" head))

/-- What a head stands for. -/
def target? (r : Resolver) (head : String) : Option String :=
  match r.imports.get? head with
  | some target => some target
  | none => if r.locals.contains head then none else r.rules.builtin? head

def resolve (r : Resolver) (reference : String) : String :=
  let (head, rest) := r.split reference
  if head.isEmpty || r.isSelf head then reference
  else match r.target? head with
    | some target => target ++ rest
    | none => reference

/-- The resolver for a file with the given contents. Its locals are the symbols declared outside
all others. -/
def ofContents (language : Language) (contents : Contents) : Resolver :=
  (ofImports language contents.imports).withLocals
    ((contents.symbols.filter fun s => s.parentPath?.isNone).map (·.name))

end Resolver

namespace Contents

/-- The contents with the parents of types and the targets of calls resolved. -/
def resolve (language : Language) (contents : Contents) : Contents :=
  let r := Resolver.ofContents language contents
  { contents with
    inheritances := contents.inheritances.map fun i => { i with parent := r.resolve i.parent }
    calls := contents.calls.map fun c => { c with callee := c.callee.map r.resolve } }

end Contents

end CodeOutline
