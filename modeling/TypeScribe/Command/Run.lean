import TypeScribe.Command.Plan

/-!
# Runs

What a run of the program shows and what it leaves behind, over a tree of files.
-/

namespace TypeScribe.Command

/-- What a run comes to. -/
structure Outcome where
  /-- Zero for success, two for arguments that are wrong, one for every other failure. -/
  status : Nat
  output : String := ""
  complaint : Option String := none
deriving DecidableEq, Repr

/-- A run that succeeds. -/
def Outcome.success (output : String) : Outcome := ⟨0, output, none⟩

/-- A run that fails. -/
def Outcome.failure (cause : Failure) : Outcome := ⟨1, "", some cause.message⟩

/-- A run with wrong arguments. -/
def Outcome.misuse (cause : Misuse) : Outcome := ⟨2, "", some cause.message⟩

/-- Carries out a plan. -/
def Plan.perform (p : Plan) (t : FileTree) : Outcome × FileTree :=
  match p with
  | .print text => (.success text, t)
  | .fail cause => (.failure cause, t)
  | .save path text notice =>
    match t.save path text with
    | (.ok (), t) => (.success notice, t)
    | (.error e, t) => (.failure (.write path e), t)

/-- The plan for a request, given how documents are loaded. -/
def Request.plan {m : Type → Type} [Monad m] (load : String → m (Except DocumentError DocumentFile)) :
    Request → m Plan
  | .version => return .print (asLine versionText)
  | .help => return .print helpText
  | .completions shell => return .print (completionText shell)
  | .check config => return planFor (fun d => .print (checkNotice config d)) (← load config)
  | .render options => return planFor options.plan (← load options.config)

/-- Does what a request asks for. -/
def Request.run (r : Request) (t : FileTree) : Outcome × FileTree :=
  (Id.run (r.plan fun path => pure (DocumentFile.load t path))).perform t

/-- A run of the program with some arguments. -/
def run (args : List String) (t : FileTree) : Outcome × FileTree :=
  match Request.ofArguments args with
  | .ok r => r.run t
  | .error cause => (.misuse cause, t)

end TypeScribe.Command
