/-!
# Sets of code points

A property of characters is a table of runs. A run names its first and last code point and the
distance between neighbours, which is two where capital and small letters alternate.
-/

namespace CodeOutline.Text

/-- The code points `first`, `first + step`, … up to `last`. -/
structure Run where
  first : Nat
  last : Nat
  step : Nat := 1

namespace Run

def contains (r : Run) (n : Nat) : Bool :=
  r.first ≤ n && n ≤ r.last && (n - r.first) % r.step == 0

def ofRange (p : Nat × Nat) : Run := { first := p.1, last := p.2 }

def ofTriple (p : Nat × Nat × Nat) : Run := { first := p.1, last := p.2.1, step := p.2.2 }

end Run

end CodeOutline.Text
