import CodeOutline.Text.Chars

/-!
# Text

Strings, cut and trimmed by the rules of `CodeOutline.Chars`. Everything here is the lift of an
operation on the list of characters, so a fact about a string is a fact about its `toList`.
-/

namespace CodeOutline.Text

/-! ## Ends -/

def trim (s : String) : String := String.ofList (Chars.trim s.toList)

def trimStart (s : String) : String := String.ofList (s.toList.dropWhile isBlank)

def trimEnd (s : String) : String := String.ofList (Chars.dropEndWhile isBlank s.toList)

def isBlankText (s : String) : Bool := s.toList.all isBlank

/-- Without the characters at the front that are among `chars`. -/
def dropStart (chars : List Char) (s : String) : String :=
  String.ofList (s.toList.dropWhile fun c => c ∈ chars)

/-- Without the characters at the end that are among `chars`. -/
def dropEnd (chars : List Char) (s : String) : String :=
  String.ofList (Chars.dropEndWhile (fun c => c ∈ chars) s.toList)

/-- Takes `pre` off the front as often as it stands there. -/
def dropAll (pre s : String) : String := String.ofList (Chars.dropAll pre.toList s.toList)

/-- Takes `suf` off the end as often as it stands there. -/
def dropAllEnd (suf s : String) : String := String.ofList (Chars.dropAllEnd suf.toList s.toList)

def startsWith (pre s : String) : Bool := pre.toList.isPrefixOf s.toList

def endsWith (suf s : String) : Bool := suf.toList.isSuffixOf s.toList

/-- What follows `pre`, if the text starts with it. -/
def afterStart? (pre s : String) : Option String :=
  (Chars.after? pre.toList s.toList).map String.ofList

/-- What precedes `suf`, if the text ends with it. -/
def beforeEnd? (suf s : String) : Option String :=
  (Chars.before? suf.toList s.toList).map String.ofList

/-! ## Separators -/

/-- What stands before and after the first `sep`. -/
def cut? (sep s : String) : Option (String × String) :=
  (Chars.cut? sep.toList s.toList).map fun (a, b) => (String.ofList a, String.ofList b)

/-- What stands before and after the last `sep`. -/
def cutLast? (sep s : String) : Option (String × String) :=
  (Chars.cutLast? sep.toList s.toList).map fun (a, b) => (String.ofList a, String.ofList b)

def hasPart (part s : String) : Bool := (Chars.cut? part.toList s.toList).isSome

/-- What precedes the first character that is among `chars`. -/
def firstPiece (chars : List Char) (s : String) : String :=
  String.ofList (s.toList.takeWhile fun c => c ∉ chars)

/-- What follows the last character that is among `chars`. -/
def lastPiece (chars : List Char) (s : String) : String :=
  String.ofList (s.toList.reverse.takeWhile fun c => c ∉ chars).reverse

def pieces (chars : List Char) (s : String) : List String :=
  (Chars.pieces (fun c => c ∈ chars) s.toList).map String.ofList

/-! ## Lines and words -/

def lines (s : String) : List String := (Chars.lines s.toList).map String.ofList

def words (s : String) : List String := (Chars.words s.toList).map String.ofList

/-- On one line, with one space between words. -/
def collapse (s : String) : String := " ".intercalate (words s)

/-- With the ASCII letters in lower case, and all else as it is. -/
def asciiLower (s : String) : String := String.ofList (s.toList.map Char.toLower)

/-- Without any blanks. -/
def compact (s : String) : String := String.ofList (s.toList.filter fun c => !isBlank c)

end CodeOutline.Text
