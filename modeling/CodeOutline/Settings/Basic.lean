import CodeOutline.Decimal.Writer
import CodeOutline.Dictionary
import CodeOutline.Failure
import CodeOutline.Language

/-!
# Settings

The limits on files, and the file extensions that a project adds. Settings as they are written are
brought to a normal form, in which extensions and names of languages are in lower case, and are
then checked.
-/

namespace CodeOutline

structure Settings where
  /-- The size in bytes above which a file is not read. -/
  maxFileBytes : Nat := 2097152
  /-- The part of a file that may be damaged, if the language does not decide. -/
  maxErrorRatio : Option Float := none
  /-- The names of languages, by file extension. -/
  extensions : Dictionary := ∅

namespace Settings

inductive Fault where
  | noFileSize
  | ratioOutOfRange (ratio : Float)
  | unknownLanguage (extension language : String)

namespace Fault

def message : Fault → String
  | noFileSize => "max_file_bytes must be greater than zero"
  | ratioOutOfRange ratio =>
    let ratio := Decimal.shortest ratio
    s!"max_error_ratio ({ratio}) must be in the range (0, 1]"
  | unknownLanguage extension language =>
    s!"extension override .{extension} names unsupported language '{language}'"

end Fault

/-- The normal form of one entry for an extension. -/
def normalEntry (extension language : String) : String × String :=
  (Text.lowercase (Text.dropStart ['.'] extension), Text.lowercase (Text.trim language))

/-- The settings with extensions in normal form. Where two of them become one the last counts. -/
def normalize (s : Settings) : Settings :=
  { s with
    extensions := Dictionary.ofList (s.extensions.entries.map fun (e, l) => normalEntry e l) }

def isRatio (ratio : Float) : Bool := 0.0 < ratio && ratio ≤ 1.0

/-- The first thing that is wrong with the settings. -/
def fault? (s : Settings) : Option Fault :=
  if s.maxFileBytes = 0 then some .noFileSize
  else match s.maxErrorRatio.filter fun ratio => !isRatio ratio with
    | some ratio => some (.ratioOutOfRange ratio)
    | none =>
      (s.extensions.entries.find? fun e => !Language.identifiers.contains e.2).map fun (e, l) =>
        .unknownLanguage e l

/-! ## Languages of files -/

/-- The language with a name, or the failure to find one. -/
def named (id : String) : Except Failure Language :=
  match Language.ofName? id with
  | some l => .ok l
  | none => .error (.unsupportedLanguage id)

/-- The language of a file: the one given, else the one set for its extension, else the one that its
extension belongs to. -/
def detect (s : Settings) (path : String) (given : Option String) : Except Failure Language :=
  match given with
  | some id => named id
  | none =>
    let extension := Text.lowercase ((Path.extension? path).getD "")
    match s.extensions.get? extension with
    | some id => named id
    | none =>
      match Language.ofExtension? extension with
      | some l => .ok l
      | none =>
        .error (.unsupportedLanguage
          (if extension.isEmpty then s!"no extension on {path}" else s!".{extension}"))

/-- The part of a file in a language that may be damaged. -/
def errorRatio (s : Settings) (l : Language) : Float := s.maxErrorRatio.getD l.errorRatio

end Settings

end CodeOutline
