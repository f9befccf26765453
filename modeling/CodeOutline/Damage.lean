import CodeOutline.Decimal.Writer
import CodeOutline.Text.Basic
import CodeOutline.Tree.Walk

/-!
# Damage

A grammar that cannot make sense of some text leaves marks in the tree: `ERROR` nodes around the
text, and stand-ins for text it missed. `Tree.damage` measures them, counting the bytes of the
outermost `ERROR` nodes. `Tree.assess` refuses a tree when its root is an `ERROR` node, when it is
nested too deep, or when the damaged bytes, with one byte for each stand-in, exceed a given part of
the source.
-/

namespace CodeOutline

structure Damage where
  /-- The bytes inside the outermost `ERROR` nodes. -/
  errorBytes : Nat := 0
  errorNodes : Nat := 0
  missingNodes : Nat := 0
deriving DecidableEq

namespace Damage

def isClean (d : Damage) : Bool := d.errorNodes == 0 && d.missingNodes == 0

def weight (d : Damage) : Nat := d.errorBytes + d.missingNodes

/-- Adds what one node shows. Only a node with something wrong below it is worth entering. -/
def inspect : Visitor Damage := fun t _ d =>
  if t.isError then
    (false, { d with errorNodes := d.errorNodes + 1, errorBytes := d.errorBytes + t.width })
  else if t.missing then (false, { d with missingNodes := d.missingNodes + 1 })
  else (t.hasError, d)

end Damage

/-- Why a tree is refused as a whole. -/
inductive Rejection where
  | unparsed
  | tooDeep
  | tooDamaged (damage : Damage) (size : Nat) (limit : Float)

namespace Rejection

/-- The deepest nesting that is accepted. -/
def maxNesting : Nat := 512

def message : Rejection → String
  | unparsed => "the file could not be parsed as a whole"
  | tooDeep => s!"nesting too deep (more than {maxNesting} levels)"
  | tooDamaged damage size limit =>
    let percent := Decimal.rounded (limit * 100.0)
    let weight := damage.weight
    let errors := damage.errorNodes
    let missing := damage.missingNodes
    s!"{weight} of {size} bytes unparseable "
      ++ s!"({errors} error, {missing} missing nodes; limit {percent}%)"

end Rejection

namespace Tree

def damage (t : Tree) : Damage :=
  if t.isError then { errorNodes := 1, errorBytes := t.width }
  else if t.hasError then t.walk Damage.inspect {}
  else {}

/-- The depth of the deepest node below the root, where nodes more than one level below the limit
are not looked at. -/
def nesting (t : Tree) (limit : Nat) : Nat :=
  t.walk (fun _ depth deepest => (depth ≤ limit, max deepest depth)) 0

/-- The damage of a tree that is good enough, given the part of the source that may be damaged. -/
def assess (t : Tree) (src : String) (ratio : Float) : Except Rejection Damage :=
  if Text.isBlankText src then .ok {}
  else if t.isError then .error .unparsed
  else if Rejection.maxNesting < t.nesting Rejection.maxNesting then .error .tooDeep
  else
    let damage := t.damage
    if ratio * src.utf8ByteSize.toFloat < damage.weight.toFloat then
      .error (.tooDamaged damage src.utf8ByteSize ratio)
    else .ok damage

end Tree

end CodeOutline
