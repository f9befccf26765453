import CodeOutline.Text.Alphanumeric
import CodeOutline.Text.Basic

/-!
# Summaries of documentation

The summary of a documentation comment is its first paragraph of prose. A tag line such as
`@param x`, `:returns:`, `Args:` or `# Examples`, and a title with its underline, end the
paragraph.

A comment without prose is summarised by one line: the first tag that says more than its subject,
else the first line of text under a heading, else the first line that is not blank. So a comment
with any content has a summary.

`Summary.ofLines` works on lines that are free of comment marks. The four readers below strip the
marks of block comments, line comments, XML comments and string literals.
-/

namespace CodeOutline.Summary

open Text

/-! ## Kinds of line -/

/-- The headings that begin a section of a docstring. -/
def sectionHeadings : List String :=
  ["Args:", "Arguments:", "Attributes:", "Example:", "Examples:", "Keyword Args:",
    "Keyword Arguments:", "Note:", "Notes:", "Parameters:", "Raises:", "Return:", "Returns:",
    "See Also:", "Todo:", "Warning:", "Warns:", "Yields:"]

/-- The fields written between colons, as in `:param x: text`. -/
def fieldWords : List String :=
  ["param", "parameter", "arg", "argument", "key", "keyword", "type", "raises", "raise", "except",
    "exception", "return", "returns", "rtype", "yield", "yields", "var", "ivar", "cvar", "vartype",
    "meta"]

/-- The elements of an XML comment that are not its summary. -/
def xmlElements : List String :=
  ["<param", "<returns", "<exception", "<remarks", "<example", "<typeparam", "<value", "<seealso",
    "<inheritdoc"]

/-- The tags whose first word is a subject and not yet a description. -/
def subjectTags : List String :=
  ["@param", "@arg", "@argument", "@throws", "@exception", "@typeparam", "@property", "@var"]

/-- A rule of dashes or equals signs under a title. -/
def isUnderline (line : String) : Bool :=
  3 ≤ line.toList.length && line.toList.all fun c => c == '-' || c == '='

def isTagLine (line : String) : Bool :=
  if startsWith "@" line || startsWith "# " line then true
  else if sectionHeadings.contains line then true
  else match afterStart? ":" line with
    | some rest =>
      match words rest with
      | [] => false
      | word :: _ => fieldWords.contains (dropEnd [':'] word)
    | none => xmlElements.any fun element => startsWith element (asciiLower line)

/-- The size of the XML tag that begins here. -/
def tagSize? (cs : List Char) : Option Nat :=
  match cs with
  | '<' :: rest =>
    let (slash, name) := match rest with
      | '/' :: name => (1, name)
      | _ => (0, rest)
    match name with
    | c :: body =>
      let inside := body.takeWhile (· != '>')
      if isAsciiLetter c && inside.length < body.length then some (3 + slash + inside.length)
      else none
    | [] => none
  | _ => none

def dropXmlTags (s : String) : String :=
  String.ofList (Chars.substitute (fun cs => (tagSize? cs).map fun size => ([], size)) s.toList)

/-- Whether a tag line says something beyond the tag and its subject. -/
def hasDescription (line : String) : Bool :=
  if startsWith "<" line then !isBlankText (dropXmlTags line)
  else match afterStart? ":" line with
    | some rest =>
      match cut? ":" rest with
      | some (_, description) => !isBlankText description
      | none => false
    | none =>
      if startsWith "# " line || sectionHeadings.contains line then false
      else match words line with
        | [] => false
        | tag :: rest => !(if subjectTags.contains tag then rest.drop 1 else rest).isEmpty

/-! ## The summary of a list of lines -/

/-- Whether the line above these is a title. -/
def underlined : List String → Bool
  | [] => false
  | next :: _ => isUnderline next

/-- The prose that the lines begin with. -/
def prose : List String → List String
  | [] => []
  | line :: rest =>
    if line.isEmpty || isUnderline line || isTagLine line || underlined rest then []
    else line :: prose rest

/-- The first line of text that is no tag, title or underline. -/
def bodyLine? : List String → Option String
  | [] => none
  | line :: rest =>
    if !line.isEmpty && !isUnderline line && !isTagLine line && !underlined rest then some line
    else bodyLine? rest

/-- The line that stands for a comment without prose at the front. -/
def standIn? (lines : List String) : Option String :=
  (lines.find? fun line => isTagLine line && hasDescription line)
    |>.or (bodyLine? lines)
    |>.or (lines.find? fun line => !line.isEmpty)

/-- The summary of trimmed lines. -/
def ofTrimmed (lines : List String) : Option String :=
  match prose (lines.dropWhile String.isEmpty) with
  | [] => standIn? lines
  | paragraph => some ("\n".intercalate paragraph)

def ofLines (lines : List String) : Option String := ofTrimmed (lines.map trim)

/-! ## Comment styles -/

/-- One leading `mark`, if the line has it. -/
def dropOne (mark line : String) : String := (afterStart? mark line).getD line

/-- A line of a block comment without the star that it may begin with. -/
def dropStar (line : String) : String := trimEnd (dropOne " " (dropOne "*" (trimStart line)))

/-- A block comment with its delimiters; its lines may begin with a star. -/
def ofBlockComment (comment : String) : Option String :=
  let body := dropAllEnd "*/" (dropAll "/*" (dropAll "/*!" (dropAll "/**" (trim comment))))
  ofLines ((lines body).map dropStar)

/-- A comment line without its marker and one space after that. -/
def dropMarker (line : String) : String :=
  let line := trimStart line
  let body := (afterStart? "///" line) |>.or (afterStart? "//!" line) |>.or (afterStart? "//" line)
    |>.or (afterStart? "#" line) |>.getD line
  trimEnd (dropOne " " body)

def dropMarkers (comments : List String) : List String := (comments.flatMap lines).map dropMarker

/-- A run of line comments. -/
def ofLineComments (comments : List String) : Option String := ofLines (dropMarkers comments)

/-- What stands between the string prefix letters and quotes of a literal. -/
def literalBody? (literal : String) : Option String :=
  let quoted := dropStart ['r', 'R', 'u', 'U', 'b', 'B', 'f', 'F'] literal
  ["\"\"\"", "'''", "\"", "'"].findSome? fun quote =>
    (afterStart? quote quoted).bind (beforeEnd? quote)

/-- The width in bytes of the blanks that a line begins with. -/
def indentation (line : String) : Nat := Chars.byteLength (line.toList.takeWhile isBlank)

/-- The lines of a literal, without the indentation that all lines after the first share. -/
def dedent (body : String) : List String :=
  match lines body with
  | [] => [""]
  | first :: rest =>
    let indent := (((rest.filter fun line => !isBlankText line).map indentation).min?).getD 0
    trim first :: rest.map fun line =>
      match Chars.dropBytes? indent line.toList with
      | some kept => trimEnd (String.ofList kept)
      | none => trim line

/-- A string literal that stands where documentation is expected. -/
def ofStringLiteral (literal : String) : Option String :=
  (literalBody? literal).bind fun body => ofLines (dedent body)

/-! ## XML comments -/

/-- What follows the blanks after `start`, of which there must be one. -/
def afterBlanks? (cs : List Char) : Option (List Char) :=
  match cs with
  | c :: rest => if isBlank c then some (rest.dropWhile isBlank) else none
  | [] => none

/-- The name that a reference element such as `<see cref="Name"/>` holds, and the element's size,
if one begins here. -/
def reference? (cs : List Char) : Option (List Char × Nat) := do
  let body ← ["<see", "<paramref", "<typeparamref"].findSome? fun start =>
    (Chars.after? start.toList cs).bind afterBlanks?
  let value ← ["cref=\"", "name=\""].findSome? fun key => Chars.after? key.toList body
  let name := value.takeWhile (· != '"')
  let rest ← Chars.after? ['"'] (value.dropWhile (· != '"'))
  let after ← Chars.after? "/>".toList (rest.dropWhile isBlank)
  return (name, cs.length - after.length)

/-- What stands in the first summary element. -/
def summaryElement? (text : String) : Option String :=
  (cut? "<summary>" text).bind fun (_, rest) => (cut? "</summary>" rest).map (·.1)

/-- A run of XML documentation comments. References stand for their names. -/
def ofXmlComments (comments : List String) : Option String :=
  let joined := "\n".intercalate (dropMarkers comments)
  let text := String.ofList (Chars.substitute reference? joined.toList)
  let inside := (summaryElement? text).bind fun body =>
    ofLines ((lines body).map fun line => trim (dropXmlTags line))
  match inside with
  | some summary => some summary
  | none => (ofLines ((lines text).map trim)).map fun summary => trim (dropXmlTags summary)

end CodeOutline.Summary
