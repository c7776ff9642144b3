import TypeScribe.Command.Request
import TypeScribe.Document.Load

/-!
# Plans

What is to be done for a request once its document was read: nothing but showing a text, writing a file, or
giving up.
-/

namespace TypeScribe.Command

/-- Why a request fails. -/
inductive Failure where
  | document (cause : DocumentError)
  | render (cause : RenderError)
  | write (path : String) (cause : FileError)
deriving DecidableEq, Repr

/-- A failure in one line. -/
def Failure.message : Failure → String
  | .document cause =>
    match cause with
    | .unreadable _ trouble => cause.title ++ ": " ++ trouble.message
    | .malformedToml _ (.misfit misfit _) => cause.title ++ ": " ++ misfit.message .toml
    | .malformedJson _ failure => cause.title ++ ": " ++ failure.message
    | .invalidTree _ missing => cause.title ++ ": " ++ missing.message
    | _ => cause.title
  | .render cause => cause.message
  | .write path trouble => "failed to write " ++ path ++ ": " ++ trouble.message

/-- What is to be done. -/
inductive Plan where
  /-- Shows a text. -/
  | print (text : String)
  /-- Writes a file, then shows a notice. -/
  | save (path text notice : String)
  /-- Gives up. -/
  | fail (cause : Failure)
deriving DecidableEq, Repr

/-- A text as a line of its own. -/
def asLine (text : String) : String := text ++ "\n"

namespace RenderOptions

/-- The file that is written: the one named on the command line as it stands, or the one named in the document
as it is seen from there. -/
def target? (o : RenderOptions) (d : Document) : Option String :=
  match o.output with
  | some path => some path
  | none => d.output.path.map fun path => Path.join ((Path.parent? o.config).getD "") path

/-- The code of a document is shown if it is not to be written, or nowhere. -/
def plan (o : RenderOptions) (d : Document) : Plan :=
  match d.render with
  | .error e => .fail (.render e)
  | .ok code =>
    match o.target? d, o.dryRun with
    | some path, false => .save path code (asLine ("Generated: " ++ path))
    | _, _ => .print code

end RenderOptions

/-- The words of a document that was found good. -/
def checkNotice (config : String) (d : Document) : String :=
  asLine ("✓ " ++ config ++ " is valid (" ++ plural d.allElements.length "element" ++ ")")

/-- What is to be done with a document, or because there is none. -/
def planFor (act : Document → Plan) (file : Except DocumentError DocumentFile) : Plan :=
  match file with
  | .error e => .fail (.document e)
  | .ok f => act f.document

/-- The name and version of the program. -/
def versionText : String := "tsgen 0.1.0"

/-- How the program is used. -/
def helpText : String :=
  "Render TypeScript source from element documents\n\n"
    ++ "Usage: tsgen [--verbose] render [--config PATH] [--output PATH] [--dry-run]\n"
    ++ "       tsgen [--verbose] check [--config PATH]\n"
    ++ "       tsgen completions SHELL\n"
    ++ "       tsgen [--version | --help]\n"

/-- What a shell is told to offer as commands. -/
def completionText (shell : Shell) : String :=
  let verbs := " ".intercalate (Verb.all.map Verb.name)
  match shell with
  | .bash => "complete -W '" ++ verbs ++ "' tsgen\n"
  | .elvish => "set edit:completion:arg-completer[tsgen] = \x7b|@args| put " ++ verbs ++ " \x7d\n"
  | .fish => "complete -c tsgen -f -a '" ++ verbs ++ "'\n"
  | .powershell =>
    "Register-ArgumentCompleter -Native -CommandName tsgen -ScriptBlock \x7b -split '" ++ verbs ++ "' \x7d\n"
  | .zsh => "compdef \"_values command " ++ verbs ++ "\" tsgen\n"

end TypeScribe.Command
