import CodeOutline.Text.Basic

/-!
# What the command line asks for

The words of a command line as an invocation: a command with its options, and the project it is
about. An option's value may be the next word, or follow its name after an equals sign, or follow
its letter at once. A word that begins with a dash is an option, unless it is a single dash or comes
after a double dash. An option is given at most once, except that the project may be given before
the command and again after it, where the second counts.
-/

namespace CodeOutline.CommandLine

inductive Command where
  | parse (file : String) (lang : Option String) (compact : Bool) (output : Option String)
  | batch (files : List String) (compact : Bool) (output : Option String)
  | languages
deriving DecidableEq

structure Invocation where
  command : Command
  /-- The root of the project, if it is not the current directory. -/
  project : Option String := none
deriving DecidableEq

/-! ## Options -/

inductive Key where
  | project
  | lang
  | output
  | compact
deriving DecidableEq

namespace Key

def all : List Key := [project, lang, output, compact]

def name : Key → String
  | project => "project"
  | lang => "lang"
  | output => "output"
  | compact => "compact"

/-- The letter that stands for the option. -/
def letter? : Key → Option Char
  | project => some 'p'
  | lang => some 'l'
  | output => some 'o'
  | compact => none

def takesValue (k : Key) : Bool := k != compact

/-- Whether a text can be the value of the option. Paths are not empty. -/
def admits (k : Key) (value : String) : Bool := k == lang || !value.isEmpty

end Key

/-- What the words of a command line give: values of options, and other words, last first. -/
structure Given where
  values : List (Key × String) := []
  words : List String := []

namespace Given

def has (g : Given) (k : Key) : Bool := g.values.any fun v => v.1 == k

def value? (g : Given) (k : Key) : Option String := (g.values.find? fun v => v.1 == k).map (·.2)

/-- Adds the value of an option, which must be new. -/
def add? (g : Given) (k : Key) (value : String) : Option Given :=
  if g.has k || !k.admits value then none else some { g with values := (k, value) :: g.values }

end Given

/-- An option as it is written: its key, and the value if that is in the same word. -/
abbrev Written := Key × Option String

/-- The option that a word with two dashes writes. -/
def long? (keys : List Key) (body : String) : Option Written := do
  let (name, value) := match Text.cut? "=" body with
    | some (name, value) => (name, some value)
    | none => (body, none)
  let key ← keys.find? fun k => k.name == name
  return (key, value)

/-- The option that a word with one dash writes. -/
def short? (keys : List Key) (body : List Char) : Option Written :=
  match body with
  | [] => none
  | letter :: rest => do
    let key ← keys.find? fun k => k.letter? == some letter
    return (key, match rest with
      | [] => none
      | '=' :: value => some (String.ofList value)
      | value => some (String.ofList value))

/-- Whether a word is written as an option. -/
def isOption (word : String) : Bool := Text.startsWith "-" word && word != "-"

def option? (keys : List Key) (word : String) : Option Written :=
  match Text.afterStart? "--" word with
  | some body => long? keys body
  | none => (Text.afterStart? "-" word).bind fun body => short? keys body.toList

/-- What the words after a command give, where the options in `keys` are known. -/
def scan (keys : List Key) (g : Given) : List String → Option Given
  | [] => some g
  | "--" :: rest => some { g with words := rest.reverse ++ g.words }
  | word :: rest =>
    if isOption word then
      match option? keys word with
      | none => none
      | some (key, value) =>
        if key.takesValue then
          match value, rest with
          | some value, rest => (g.add? key value).bind fun g => scan keys g rest
          | none, next :: rest =>
            if isOption next then none else (g.add? key next).bind fun g => scan keys g rest
          | none, [] => none
        else if value.isSome then none
        else (g.add? key "true").bind fun g => scan keys g rest
    else scan keys { g with words := word :: g.words } rest

/-! ## Commands -/

/-- The command with a name, from the words after it. -/
def command? (name : String) (words : List String) : Option (Command × Option String) := do
  match name with
  | "parse" =>
    let g ← scan [.project, .lang, .output, .compact] {} words
    match g.words with
    | [file] =>
      if file.isEmpty then none
      else return (.parse file (g.value? .lang) (g.has .compact) (g.value? .output),
        g.value? .project)
    | _ => none
  | "batch" =>
    let g ← scan [.project, .output, .compact] {} words
    if g.words.isEmpty || g.words.any String.isEmpty then none
    else return (.batch g.words.reverse (g.has .compact) (g.value? .output), g.value? .project)
  | "languages" =>
    let g ← scan [.project] {} words
    if g.words.isEmpty then return (.languages, g.value? .project) else none
  | _ => none

/-- The words before the command, which may give the project, and the invocation. -/
def invocationFrom (g : Given) : List String → Option Invocation
  | [] => none
  | word :: rest =>
    if isOption word then
      match option? [.project] word, rest with
      | some (key, some value), rest => (g.add? key value).bind fun g => invocationFrom g rest
      | some (key, none), next :: rest =>
        if isOption next then none else (g.add? key next).bind fun g => invocationFrom g rest
      | _, _ => none
    else (command? word rest).map fun (command, project) =>
      { command, project := project.or (g.value? .project) }

/-- The invocation that the words of a command line make. -/
def invocation? (words : List String) : Option Invocation := invocationFrom {} words

end CodeOutline.CommandLine
