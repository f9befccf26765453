import CodeOutline.CallSite
import CodeOutline.Comments
import CodeOutline.Summary

/-!
# Dialects

What has to be said about a language so that its files can be outlined: where the documentation of a
file stands, what its declarations look like, which names stand for whole modules, and what calls
look like. `Dialect.contents` puts these together.
-/

namespace CodeOutline

structure Dialect where
  /-- The summary of the documentation of a file. -/
  docstring : (src : String) → Tree → Option String
  rule : (src : String) → Rule
  /-- The package of a file, from the names of packages found in it. -/
  package : List String → String := fun _ => ""
  /-- The local names that stand for whole modules. -/
  moduleNames : List Import → List String := fun _ => []
  /-- The call that a node is, given the names that stand for whole modules. -/
  site? : (src : String) → (modules : List String) → Tree → Option CallSite

namespace Finding

def symbol? : Finding → Option Declared
  | symbol declared => some declared
  | _ => none

def import? : Finding → Option Import
  | imported i => some i
  | _ => none

def inheritance? : Finding → Option Inheritance
  | inheritance i => some i
  | _ => none

def package? : Finding → Option String
  | package name => some name
  | _ => none

end Finding

namespace Dialect

/-- What a file holds, with references as they are written. -/
def contents (d : Dialect) (src : String) (root : Tree) : Contents :=
  let findings := (d.rule src).findings root
  let declared := findings.filterMap Finding.symbol?
  let imports := findings.filterMap Finding.import?
  let scopes := declared.filter fun s => s.symbol.kind.isCaller
  { symbols := declared.map (·.symbol)
    imports
    inheritances := findings.filterMap Finding.inheritance?
    calls := collectCalls src scopes (d.site? src (d.moduleNames imports)) root
    docstring := d.docstring src root
    package := d.package (findings.filterMap Finding.package?) }

/-! ## Packages -/

/-- The package that is named last. -/
def lastPackage (names : List String) : String := names.getLast?.getD ""

/-- The first package with a name. -/
def firstPackage (names : List String) : String := (names.find? fun name => !name.isEmpty).getD ""

end Dialect

/-! ## Documentation in block comments -/

namespace Comments

/-- The summary of the nearest documentation block above a node. -/
def blockSummary (src : String) (skip : List String) (c : Cursor) : Option String :=
  (before src isDocBlock skip c).getLast?.bind fun t => Summary.ofBlockComment (t.text src)

/-- The summary of the first documentation block at the top of a file. -/
def leadingBlockSummary (src : String) (preamble header : List String) (root : Tree) :
    Option String :=
  (leading src isDocBlock preamble header root).head?.bind fun t =>
    Summary.ofBlockComment (t.text src)

end Comments

end CodeOutline
