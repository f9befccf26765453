import CodeOutline.Decimal.Reader
import CodeOutline.FileTree
import CodeOutline.Settings.Basic
import CodeOutline.Text.Utf8
import CodeOutline.Toml.Reader

/-!
# Where settings come from

A project keeps its settings in a TOML file below its root. Two environment variables go before the
file, if they hold numbers; without file and variables the defaults hold.
-/

namespace CodeOutline.Settings

open Toml (Value Entries)

/-! ## The file -/

/-- The values of a group of settings, in the order of the keys. A list of values may stand for a
table; values that it has no key for are passed over. -/
def slots? (keys : List String) : Value → Option (List (Option Value))
  | .table _ entries => some (keys.map (Entries.get? entries))
  | .array items => some (keys.zipIdx.map fun (_, i) => items[i]?)
  | .tables earlier last =>
    let items := earlier ++ [.table .header last]
    some (keys.zipIdx.map fun (_, i) => items[i]?)
  | _ => none

/-- A setting that keeps its default if it is left out. -/
def orDefault {α : Type} (default : α) (read : Value → Option α) : Option Value → Option α
  | none => some default
  | some value => read value

def size? : Value → Option Nat
  | .integer n => if 0 ≤ n ∧ n < twoTo 64 then some n.toNat else none
  | _ => none

/-- A ratio, for which an integer may be written. -/
def ratio? : Value → Option Float
  | .float x => some x
  | .integer n =>
    if -(twoTo 63) ≤ n ∧ n < twoTo 64 then some (Double.nearest (decide (n < 0)) n.natAbs 1)
    else none
  | _ => none

def text? : Value → Option String
  | .string text => some text
  | _ => none

def dictionary? : Value → Option Dictionary
  | .table _ entries => do
    return Dictionary.ofList (← entries.mapM fun (key, value) => (text? value).map (key, ·))
  | _ => none

/-- The limits on files. -/
def limits? (s : Settings) (value : Value) : Option Settings := do
  match ← slots? ["max_file_bytes", "max_error_ratio"] value with
  | [size, ratio] =>
    return { s with
      maxFileBytes := ← orDefault s.maxFileBytes size? size
      maxErrorRatio := ← orDefault s.maxErrorRatio (fun v => (ratio? v).map some) ratio }
  | _ => none

/-- The settings on languages. -/
def languages? (s : Settings) (value : Value) : Option Settings := do
  match ← slots? ["extensions"] value with
  | [extensions] => return { s with extensions := ← orDefault ∅ dictionary? extensions }
  | _ => none

/-- The settings in a file. -/
def ofText? (text : String) : Option Settings := do
  let entries ← Toml.parse? text
  let s ← orDefault {} (limits? {}) (entries.get? "parser")
  orDefault s (languages? s) (entries.get? "languages")

/-! ## The environment -/

/-- The settings after the environment has its say. A variable that holds no number is ignored. -/
def withEnvironment (s : Settings) (env : Dictionary) : Settings :=
  let size := ((env.get? "SRCMODEL_MAX_FILE_BYTES").bind Decimal.nat?).filter (· < twoTo 64)
  let ratio := (env.get? "SRCMODEL_MAX_ERROR_RATIO").bind Decimal.float?
  { s with maxFileBytes := size.getD s.maxFileBytes, maxErrorRatio := ratio.or s.maxErrorRatio }

/-! ## Loading -/

/-- Why settings cannot be loaded. -/
inductive LoadFailure where
  | unreadable (path : String)
  | malformed (path : String)
  | invalid (fault : Fault)

namespace LoadFailure

def message : LoadFailure → String
  | unreadable path => s!"failed to read {path}"
  | malformed path => s!"failed to parse {path}"
  | invalid fault => fault.message

end LoadFailure

/-- Where a project keeps its settings. -/
def path (root : String) : String := Path.join (Path.join root ".srcmodel") "config.toml"

/-- The settings in a project's file, as they are written. -/
def ofFile (files : FileTree) (root : String) : Except LoadFailure Settings :=
  if files.contains (path root) then
    match (files.read (path root)).toOption.bind fun bytes => (Utf8.decode bytes).toOption with
    | none => .error (.unreadable (path root))
    | some text =>
      match ofText? text with
      | none => .error (.malformed (path root))
      | some s => .ok s
  else .ok {}

/-- The settings of a project. -/
def load (files : FileTree) (env : Dictionary) (root : String) : Except LoadFailure Settings := do
  let s := ((← ofFile files root).withEnvironment env).normalize
  match s.fault? with
  | some fault => .error (.invalid fault)
  | none => .ok s

end CodeOutline.Settings
