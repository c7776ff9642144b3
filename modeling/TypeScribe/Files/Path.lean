import TypeScribe.Text.Lines
import TypeScribe.Tree.Fault

/-!
# Paths

A path is a text of names with slashes between them. Empty names and single dots stand for where one is; they
are passed over, except at the front.
-/

namespace TypeScribe

namespace Path

/-- What stands between slashes. -/
def splitSlashes : List Char → List (List Char)
  | [] => [[]]
  | c :: rest => if c = '/' then [] :: splitSlashes rest else consLine c (splitSlashes rest)

/-- The names of a path, empty ones too. -/
def names (path : String) : List String := (splitSlashes path.toList).map String.ofList

/-- Whether a path begins at the root. -/
def isAbsolute (path : String) : Bool := path.toList.head? = some '/'

/-- Whether a name stands for where one is. -/
def isIdle (name : String) : Bool := name = "" || name = "."

/-- Names without those at the end that stand for where one is; the first is kept. -/
def trim : List String → List String
  | [] => []
  | first :: rest => first :: (rest.reverse.dropWhile isIdle).reverse

/-- The path without its last name, if it has one. -/
def parent? (path : String) : Option String :=
  match trim (names path) with
  | [] | [""] => none
  | [_] => some ""
  | all =>
    match trim all.dropLast with
    | [""] => some "/"
    | up => some ("/".intercalate up)

/-- The names on the way to what a path names. -/
def way (path : String) : List String := ((names path).filter fun n => !isIdle n).dropLast

/-- A path as it is seen from a directory. -/
def join (directory path : String) : String :=
  if isAbsolute path || directory.isEmpty then path
  else if directory.toList.getLast? = some '/' then directory ++ path
  else directory ++ "/" ++ path

/-- What stands after the last dot of the last name, if something stands before it. -/
def extension? (path : String) : Option String :=
  match (trim (names path)).getLast? with
  | none | some ".." => none
  | some name =>
    let backwards := name.toList.reverse
    let after := backwards.takeWhile (· ≠ '.')
    match backwards.drop after.length with
    | _ :: _ :: _ => some (String.ofList after.reverse)
    | _ => none

end Path

/-- The form of a file, by the extension of its path: nested objects for `json` in letters of any size. -/
def Format.ofPath (path : String) : Format :=
  match Path.extension? path with
  | some e => if e.toLower = "json" then .json else .toml
  | none => .toml

end TypeScribe
