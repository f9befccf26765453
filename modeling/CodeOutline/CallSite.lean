import CodeOutline.Rule
import CodeOutline.Text.Uppercase
import CodeOutline.Tree.Walk

/-!
# Calls

A call is attributed to the innermost routine around it: of the declarations that hold calls and
cover the place where the call begins, the one that covers the fewest bytes. Calls are collected by
a walk through the whole tree that leaves out `ERROR` nodes.
-/

namespace CodeOutline

/-- What a node that is a call shows of it. -/
structure CallSite where
  callee : Option String
  kind : CallKind
  arguments : Nat
deriving DecidableEq

namespace CallSite

/-- A call whose text names its target. -/
def direct (callee : String) (kind : CallKind) (arguments : Nat) : CallSite :=
  { callee := some callee, kind, arguments }

/-- A call whose target is computed. -/
def dynamic (arguments : Nat) : CallSite := { callee := none, kind := .dynamic, arguments }

/-- The number of arguments in a list of them. -/
def countArguments : Option Tree → Nat
  | none => 0
  | some t => (t.namedChildren.filter fun c => !Text.hasPart "comment" c.kind).length

/-- The kind of a call of a member, told by how its receiver is written. A receiver that begins with
a capital letter is taken for a type, unless it is a word for the object at hand. -/
def memberKind (selfWords : List String) (receiver : String) : CallKind :=
  let receiver := Text.dropEnd ['!'] (Text.dropAllEnd "()" (Text.dropEnd ['?'] receiver))
  let last := Text.dropStart ['$'] (Text.lastPiece ['.', ':', '>', '\\'] receiver)
  if selfWords.contains receiver || selfWords.contains last then .method
  else if Text.startsUppercase last then .staticMethod
  else .method

/-- The first segment of a receiver. -/
def receiverHead (receiver : String) : String := Text.firstPiece ['.', ':'] receiver

end CallSite

/-! ## Callers -/

namespace Declared

def width (d : Declared) : Nat := d.stop - d.start

def covers (d : Declared) (offset : Nat) : Bool := d.start ≤ offset && offset < d.stop

/-- The narrower of two declarations, the first if they are as wide. -/
def narrower (best : Option Declared) (d : Declared) : Option Declared :=
  match best with
  | none => some d
  | some b => if d.width < b.width then some d else some b

/-- The narrowest declaration that covers an offset. -/
def innermost? (scopes : List Declared) (offset : Nat) : Option Declared :=
  (scopes.filter fun d => d.covers offset).foldl narrower none

end Declared

/-- The call at a node, given the declarations that hold calls. -/
def CallSite.callAt (src : String) (scopes : List Declared) (t : Tree) (site : CallSite) :
    Call where
  caller := ((Declared.innermost? scopes t.start).map fun d => d.symbol.name).getD Call.outermost
  callee := site.callee.filter fun s => !s.isEmpty
  line := t.startRow src + 1
  kind := site.kind
  arguments := site.arguments

/-- The calls in a tree, in source order. -/
def collectCalls (src : String) (scopes : List Declared) (site? : Tree → Option CallSite)
    (root : Tree) : List Call :=
  let visit : Visitor (List Call) := fun t _ calls =>
    if t.isError then (false, calls)
    else match site? t with
      | some site => (true, site.callAt src scopes t :: calls)
      | none => (true, calls)
  (root.walk visit []).reverse

end CodeOutline
