import NodeFleet.Cloud.Basic
/-!
A tree of files, and the paths that lead into it from one directory. A path is followed piece by
piece, and every piece but the last has to lead to a directory.
-/

set_option autoImplicit false
set_option relaxedAutoImplicit false

namespace NodeFleet

/-- The names on the way to a file: from the directory in which paths begin, or from the root. -/
abbrev Location := List String

namespace Location

def root : Location := ["/"]

def origin (path : String) : Location :=
  if path.startsWith "/" then root else []

/-- The place above; above the beginning it is written with dots. -/
def parent (l : Location) : Location :=
  if l = root then l
  else
    match l.getLast? with
    | none | some ".." => l ++ [".."]
    | some _ => l.dropLast

/-- The beginning, the root and what lies above the beginning. -/
def isGiven (l : Location) : Bool :=
  l = root || l.all (· = "..")

/-- The place that a piece of a path leads to. -/
def enter (l : Location) (piece : String) : Location :=
  if piece = "" ∨ piece = "." then l
  else if piece = ".." then l.parent
  else l ++ [piece]

end Location

inductive FileEntry
  | directory
  | file (content : ByteArray)

structure Files where
  entries : List (Location × FileEntry)

namespace Files

def empty : Files := ⟨[]⟩

/-- The pieces of a path. -/
def pieces (path : String) : List String :=
  path.splitToList (· = '/')

def find? (f : Files) (l : Location) : Option FileEntry :=
  match f.entries.find? fun e ↦ e.1 = l with
  | some e => some e.2
  | none =>
    if l.isGiven || f.entries.any fun e ↦ l.isPrefixOf e.1 then some .directory else none

/-- Writes a file, or makes a directory of a path that ends in a slash. -/
def write (f : Files) (path : String) (content : ByteArray) : Files :=
  let l := (pieces path).foldl Location.enter (.origin path)
  let entry := if path.endsWith "/" then FileEntry.directory else .file content
  ⟨f.entries.filter (fun e ↦ e.1 ≠ l) ++ [(l, entry)]⟩

def longestName : Nat := 255

def longestPath : Nat := 4095

/-- What stands at a place, if the place can be reached. -/
def follow (f : Files) (l : Location) : List String → Except FileFault FileEntry
  | [] =>
    match f.find? l with
    | some entry => .ok entry
    | none => .error .notFound
  | piece :: rest =>
    match f.find? l with
    | none => .error .notFound
    | some (.file _) => .error .notADirectory
    | some .directory =>
      if longestName < piece.utf8ByteSize then .error .nameTooLong
      else f.follow (l.enter piece) rest

/-- Opens a path for reading; a directory opens too, and holds no bytes. -/
def openPath (f : Files) (path : String) : Except FileFault FileEntry :=
  if path.toList.contains '\x00' then .error .invalidInput
  else if path = "" then .error .notFound
  else if longestPath < path.utf8ByteSize then .error .nameTooLong
  else f.follow (.origin path) (pieces path)

def isDirectory (f : Files) (path : String) : Bool :=
  match f.openPath path with
  | .ok .directory => true
  | _ => false

/-- The text of a file. -/
def readText (f : Files) (path : String) : Except FileFault String := do
  match ← f.openPath path with
  | .directory => .error .isADirectory
  | .file content =>
    match String.fromUTF8? content with
    | some s => .ok s
    | none => .error .invalidData

/-- A directory and a name below it as one path; an absolute name stands alone. -/
def join (directory name : String) : String :=
  if name.startsWith "/" ∨ directory = "" then name
  else if directory.endsWith "/" then directory ++ name
  else directory ++ "/" ++ name

end Files

end NodeFleet
