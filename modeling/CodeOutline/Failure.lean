/-!
# Failures

Why a file has no outline.
-/

namespace CodeOutline

inductive Failure where
  /-- No language goes by this name. -/
  | unsupportedLanguage (id : String)
  | unreadable (path reason : String)
  | tooLarge (size limit : Nat)
  | notUtf8 (offset : Nat)
  | grammarUnavailable (language reason : String)
  /-- The syntax tree as a whole is of no use. -/
  | malformed (reason : String)
deriving DecidableEq

namespace Failure

def message : Failure → String
  | unsupportedLanguage id => s!"unsupported language: {id}"
  | unreadable path reason => s!"cannot read {path}: {reason}"
  | tooLarge size limit => s!"file too large: {size} bytes exceeds limit of {limit}"
  | notUtf8 offset => s!"file is not valid UTF-8 (invalid byte at offset {offset})"
  | grammarUnavailable language reason => s!"grammar unavailable for {language}: {reason}"
  | malformed reason => s!"syntax error: {reason}"

/-- Whether the file could not be read, as opposed to understood. -/
def isInputFailure : Failure → Bool
  | unreadable .. | tooLarge .. | notUtf8 .. => true
  | _ => false

end Failure

end CodeOutline
