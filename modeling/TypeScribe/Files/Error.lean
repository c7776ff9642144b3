/-!
# Troubles with files

Why a file cannot be read or written.
-/

namespace TypeScribe

/-- Why a file cannot be read or written. -/
inductive FileError where
  | notFound
  | isADirectory
  | notADirectory
  /-- Something other than a directory is there already. -/
  | alreadyExists
  /-- The bytes are not a text. -/
  | invalidData
  /-- The system does not allow it. -/
  | denied
deriving DecidableEq, Repr

/-- A trouble in words. -/
def FileError.message : FileError → String
  | .notFound => "no such file or directory"
  | .isADirectory => "is a directory"
  | .notADirectory => "not a directory"
  | .alreadyExists => "file exists"
  | .invalidData => "the file is not valid UTF-8"
  | .denied => "permission denied"

end TypeScribe
