/-!
# Places in a source text

Offsets into a source text count its bytes of UTF-8. Rows count line feeds: an offset's row is the
number of line feeds before it, and line numbers, which people see, are one more.
-/

namespace CodeOutline.Source

/-- The text from one offset to another. -/
def slice (src : String) (start stop : Nat) : String :=
  String.Pos.Raw.extract src ⟨start⟩ ⟨stop⟩

/-- The line feeds before an offset in the rest of a text, which begins at `pos`, and `row` more. -/
def rowFrom (offset row pos : Nat) : List Char → Nat
  | [] => row
  | c :: rest =>
    if pos < offset then
      rowFrom offset (if c = '\n' then row + 1 else row) (pos + c.utf8Size) rest
    else row

def rowAt (src : String) (offset : Nat) : Nat := rowFrom offset 0 0 src.toList

/-- Whether nothing stands on the offset's line before it. -/
def atLineStart (src : String) (offset : Nat) : Bool :=
  match (slice src 0 offset).toList.getLast? with
  | none => true
  | some c => c = '\n'

end CodeOutline.Source
