import SessionGrid.Bindings

/-!
# Files around a working directory

A tree of files as a value: contents under paths, in which names are joined by `/`. Paths are walked
name by name as a file system does it: every name but the last leads through a directory, `.` stays
where it is and `..` goes up. What lies outside the working directory is held under a path that starts
with `..` or `/` (`Directory.isInside`), and the directories above it are always there. `FileAccess` is
what a program needs of a file system; `Directory.access` gives it a tree.
-/

namespace SessionGrid

inductive FileError where
  | missing
  | notADirectory
  | isADirectory
  | nameTooLong
  /-- Any other failure, in the words of the system. -/
  | other (message : String)
deriving DecidableEq

def FileError.message : FileError → String
  | missing => "No such file or directory (os error 2)"
  | notADirectory => "Not a directory (os error 20)"
  | isADirectory => "Is a directory (os error 21)"
  | nameTooLong => "File name too long (os error 36)"
  | other message => message

/-- Reading and writing whole files. -/
structure FileAccess (m : Type → Type) where
  read : String → m (Except FileError ByteArray)
  /-- There is a file or a directory. -/
  holds : String → m Bool
  /-- Creates a file, or replaces its content. -/
  write : String → ByteArray → m (Except FileError Unit)

inductive Entry where
  | file (content : ByteArray)
  | directory

/-- What is there under each path. -/
abbrev Directory := Bindings Entry

namespace Directory

/-- The names of a path; two slashes in a row enclose an empty one. -/
def names : List Char → List (List Char)
  | [] => [[]]
  | c :: cs =>
    if c = '/' then [] :: names cs
    else match names cs with
      | n :: ns => (c :: n) :: ns
      | [] => [[c]]

/-- The path made of the given names. -/
def join (ns : List String) : String :=
  "/".intercalate ns

/-- Bytes that a name has at most. -/
def maxName : Nat := 255

/-- Bytes that a path has at most. -/
def maxPath : Nat := 4095

/-- The place of the outermost directory. -/
def top : List String := [""]

/-- The place of the working directory or of one above it, but for the outermost one. -/
def isAbove (place : List String) : Bool :=
  place.all (· == "..")

/-- The place of the directory that holds a place. Nothing holds the outermost one. -/
def up (place : List String) : List String :=
  if place = top then top else if isAbove place then place ++ [".."] else place.dropLast

def entry? (d : Directory) (place : List String) : Option Entry :=
  if place = top ∨ isAbove place = true then some .directory else Bindings.find? (join place) d

/-- The place that names lead to from a directory. The last one need not be there. -/
def walk (d : Directory) (place : List String) : List String → Except FileError (List String)
  | [] => .ok place
  | n :: ns =>
    if n = "" ∨ n = "." then walk d place ns
    else if n = ".." then walk d (up place) ns
    else if maxName < n.utf8ByteSize then .error .nameTooLong
    else if ns = [] then .ok (place ++ [n])
    else match d.entry? (place ++ [n]) with
      | some .directory => walk d (place ++ [n]) ns
      | some (.file _) => .error .notADirectory
      | none => .error .missing

/-- Where a path starts and the names in it: at the outermost directory behind a slash, and else at the
working directory. -/
def route : List Char → List String × List String
  | '/' :: cs => (top, (names cs).map String.ofList)
  | cs => ([], (names cs).map String.ofList)

/-- The place of a path. -/
def place (d : Directory) (path : String) : Except FileError (List String) :=
  if maxPath < path.utf8ByteSize then .error .nameTooLong
  else match path.toList with
    | [] => .error .missing
    | cs => walk d (route cs).1 (route cs).2

/-- What is held under the path lies below the working directory. -/
def isInside (path : String) : Bool :=
  match path.toList with
  | '/' :: _ => false
  | '.' :: '.' :: '/' :: _ => false
  | _ => true

def read (d : Directory) (path : String) : Except FileError ByteArray := do
  match d.entry? (← d.place path) with
  | some (.file content) => .ok content
  | some .directory => .error .isADirectory
  | none => .error .missing

def holds (d : Directory) (path : String) : Bool :=
  match d.place path with
  | .ok place => (d.entry? place).isSome
  | .error _ => false

/-- The directory with a file created or replaced. -/
def write (d : Directory) (path : String) (content : ByteArray) : Except FileError Directory := do
  let place ← d.place path
  match d.entry? place with
  | some .directory => .error .isADirectory
  | _ => .ok (Bindings.insert (join place) (.file content) d)

/-- Access to the files of a directory that changes. -/
def access : FileAccess (StateM Directory) where
  read path := do return (← get).read path
  holds path := do return (← get).holds path
  write path content := do
    match (← get).write path content with
    | .ok d => set d; return .ok ()
    | .error e => return .error e

end Directory

end SessionGrid
