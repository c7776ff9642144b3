import TypeScribe.Command.Run

/-!
The program: reads its arguments, loads what they name, and carries out the plan.
-/

namespace TypeScribe.Program

open TypeScribe.Command

/-- The number by which systems tell that a directory stands where a file was wanted. -/
def isDirectoryCode : UInt32 := 21

/-- The trouble that an operation on files ended in. -/
def troubleOf : IO.Error → FileError
  | .noFileOrDirectory .. => .notFound
  | .inappropriateType _ code _ => if code = isDirectoryCode then .isADirectory else .notADirectory
  | .alreadyExists .. => .alreadyExists
  | _ => .denied

/-- The text of a file. -/
def readFileText (path : String) : IO (Except FileError String) := do
  try
    let bytes ← IO.FS.readBinFile path
    return FileTree.textOf bytes
  catch e => return .error (troubleOf e)

/-- Writes a file after the directories on the way are made. -/
def saveFile (path text : String) : IO (Except FileError Unit) := do
  try
    if let some parent := Path.parent? path then
      if !parent.isEmpty then IO.FS.createDirAll parent
    IO.FS.writeFile path text
    return .ok ()
  catch e => return .error (troubleOf e)

/-- Carries out a plan. -/
def perform : Plan → IO Outcome
  | .print text => return .success text
  | .fail cause => return .failure cause
  | .save path text notice => do
    match ← saveFile path text with
    | .ok () => return .success notice
    | .error e => return .failure (.write path e)

/-- Shows what a run comes to. -/
def report (o : Outcome) : IO UInt32 := do
  IO.print o.output
  if let some text := o.complaint then IO.eprintln ("error: " ++ text)
  return UInt32.ofNat o.status

end TypeScribe.Program

open TypeScribe TypeScribe.Command TypeScribe.Program in
/-- Runs the program. -/
def main (args : List String) : IO UInt32 := do
  match Request.ofArguments args with
  | .error cause => report (.misuse cause)
  | .ok r =>
    let plan ← r.plan fun path => return DocumentFile.ofContent path (← readFileText path)
    report (← perform plan)
