/-!
# TOML values and tables

A document is a table, and what it holds is added line by line. A table remembers how it came about,
since this decides what may still be added to it: a header opens a table once, a dotted key reaches
only into tables made by dotted keys, and an inline table is closed.
-/

namespace CodeOutline.Toml

inductive Origin where
  /-- Opened by a header of its own. -/
  | header
  /-- On the way to a header. -/
  | implied
  /-- On the way to the last part of a dotted key. -/
  | dotted
  | inline
deriving DecidableEq

inductive Value where
  | string (text : String)
  | integer (n : Int)
  | float (x : Float)
  | boolean (b : Bool)
  /-- A date, a time or both; which one is not kept. -/
  | dateTime
  | array (items : List Value)
  /-- The tables that headers in double brackets have added, the last one apart. -/
  | tables (earlier : List Value) (last : List (String × Value))
  | table (origin : Origin) (entries : List (String × Value))

abbrev Entries := List (String × Value)

namespace Entries

def get? (entries : Entries) (key : String) : Option Value :=
  (entries.find? fun e => e.1 == key).map (·.2)

/-- The entries with a new value for a key, at the end if the key is new. -/
def set (entries : Entries) (key : String) (value : Value) : Entries :=
  if entries.any fun e => e.1 == key then
    entries.map fun e => if e.1 == key then (key, value) else e
  else entries ++ [(key, value)]

end Entries

/-- A table with how it came about. -/
abbrev Table := Origin × Entries

/-- Whether a path of the given kind may go on through a table. -/
def Origin.admits (dotted : Bool) : Origin → Bool
  | .inline => false
  | .header => !dotted
  | .implied | .dotted => true

/-- Changes the table at the end of a path. Tables that are missing on the way are made. A path goes
through the last of several tables under one name. -/
def alter (isDotted : Bool) (change : Table → Option Table) : List String → Table → Option Table
  | [], table => change table
  | key :: path, (origin, entries) =>
    match entries.get? key with
    | none => do
      let fresh := if isDotted then Origin.dotted else .implied
      let (o, inner) ← alter isDotted change path (fresh, [])
      return (origin, entries.set key (.table o inner))
    | some (.table o inner) => do
      let (o, inner) ← if o.admits isDotted then alter isDotted change path (o, inner) else none
      return (origin, entries.set key (.table o inner))
    | some (.tables earlier last) => do
      let (_, last) ← alter isDotted change path (.header, last)
      return (origin, entries.set key (.tables earlier last))
    | some _ => none

/-- Adds a value under a dotted key, given as the path to its table and its last part. -/
def insert (path : List String) (key : String) (value : Value) : Table → Option Table :=
  alter true (fun (origin, entries) =>
    if (origin == .dotted) == path.isEmpty then none
    else if (entries.get? key).isSome then none
    else some (origin, entries.set key value)) path

/-- Opens the table of a header. A table on the way to an earlier header may be opened. -/
def openTable (path : List String) (key : String) : Table → Option Table :=
  alter false (fun (origin, entries) =>
    match entries.get? key with
    | none => some (origin, entries.set key (.table .header []))
    | some (.table .implied inner) => some (origin, entries.set key (.table .header inner))
    | some _ => none) path

/-- Adds one more table under a header in double brackets. -/
def addTable (path : List String) (key : String) : Table → Option Table :=
  alter false (fun (origin, entries) =>
    match entries.get? key with
    | none => some (origin, entries.set key (.tables [] []))
    | some (.tables earlier last) =>
      some (origin, entries.set key (.tables (earlier ++ [.table .header last]) []))
    | some _ => none) path

end CodeOutline.Toml
