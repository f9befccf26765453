import CodeOutline.Path
import CodeOutline.Text.Basic

/-!
# Files

A picture of a file system: regular files with their bytes, and directories. Paths are followed the
way POSIX says. A place is found by going along the components of a path, from the current directory
or from the top; each step but the last must be through a directory. The directories above the
current one are there too, though nothing is known of what they hold.
-/

namespace CodeOutline

/-- Where a path begins, once it is followed. -/
inductive Base where
  | top
  /-- The directory that many levels above the current one. -/
  | above (levels : Nat)
deriving DecidableEq

/-- A place in a file system: names of directories, and the last one of a file or directory. -/
structure Place where
  base : Base
  names : List String
deriving DecidableEq

namespace Place

def current : Place := ⟨.above 0, []⟩

/-- The directory that holds the place. The top holds itself. -/
def parent (p : Place) : Place :=
  match p.base, p.names with
  | .top, [] => p
  | .above n, [] => ⟨.above (n + 1), []⟩
  | base, names => ⟨base, names.dropLast⟩

def child (p : Place) (name : String) : Place := { p with names := p.names ++ [name] }

/-- One step along a path. -/
def move (p : Place) (component : String) : Place :=
  if component = "" ∨ component = "." then p
  else if component = ".." then p.parent
  else p.child component

/-- Where a path begins, and its components. -/
def start (path : String) : Place × List String :=
  match Text.pieces ['/'] path with
  | "" :: rest => (⟨.top, []⟩, rest)
  | components => (current, components)

/-- The place that a path names, if all directories on the way are there. -/
def ofPath (path : String) : Place := (start path).2.foldl move (start path).1

/-- Whether a place is below this one. -/
def holds (p q : Place) : Bool :=
  p.base == q.base && p.names.isPrefixOf q.names && p.names.length < q.names.length

end Place

inductive Entry where
  | file (bytes : List UInt8)
  | directory
deriving DecidableEq

structure FileTree where
  entries : List (Place × Entry) := []
deriving DecidableEq

namespace FileTree

/-- Why a path leads nowhere. -/
inductive Fault where
  | notFound
  | notDirectory
  | isDirectory
deriving DecidableEq

namespace Fault

def message : Fault → String
  | notFound => "No such file or directory (os error 2)"
  | notDirectory => "Not a directory (os error 20)"
  | isDirectory => "Is a directory (os error 21)"

end Fault

/-- What is at a place. The directories that lead to a file are there with it. -/
def entry? (t : FileTree) (p : Place) : Option Entry :=
  match t.entries.find? fun e => e.1 == p with
  | some e => some e.2
  | none =>
    if p.names.isEmpty || t.entries.any fun e => p.holds e.1 then some .directory else none

/-- One step from a place, which has to be a directory. -/
def step (t : FileTree) (p : Place) (component : String) : Except Fault Place :=
  match t.entry? p with
  | none => .error .notFound
  | some (.file _) => .error .notDirectory
  | some .directory => .ok (p.move component)

/-- The place that a path leads to, whether or not something is there. -/
def follow (t : FileTree) (path : String) : Except Fault Place :=
  if path.isEmpty then .error .notFound
  else
    let (place, components) := Place.start path
    components.foldlM t.step place

/-- What a path leads to. -/
def get (t : FileTree) (path : String) : Except Fault Entry := do
  match t.entry? (← t.follow path) with
  | some entry => .ok entry
  | none => .error .notFound

def contains (t : FileTree) (path : String) : Bool := (t.get path).isOk

def read (t : FileTree) (path : String) : Except Fault (List UInt8) := do
  match ← t.get path with
  | .file bytes => .ok bytes
  | .directory => .error .isDirectory

/-- The tree with an entry in the place of any other there. -/
def set (t : FileTree) (p : Place) (entry : Entry) : FileTree :=
  { entries := (p, entry) :: t.entries.filter fun e => e.1 != p }

/-- Whether a path can only lead to a directory. -/
def endsInDirectory (path : String) : Bool :=
  let last := Text.lastPiece ['/'] path
  last == "" || last == "." || last == ".."

/-- The tree after bytes are written to a path. The directory of the file has to be there. -/
def write (t : FileTree) (path : String) (bytes : List UInt8) : Except Fault FileTree := do
  let place ← t.follow path
  match t.entry? place with
  | some .directory => .error .isDirectory
  | some (.file _) => .ok (t.set place (.file bytes))
  | none => if endsInDirectory path then .error .isDirectory else .ok (t.set place (.file bytes))

/-- The tree with these entries, by their paths. -/
def ofList (entries : List (String × Entry)) : FileTree :=
  entries.foldl (fun t (path, entry) => t.set (Place.ofPath path) entry) {}

end FileTree

end CodeOutline
