import TypeScribe.Command.Flags

/-!
# Requests

What the arguments ask for. Arguments are read from left to right, and the first that is wrong, or asks for
help or the version, ends the reading.
-/

namespace TypeScribe.Command

/-- The shells that completions can be made for. -/
inductive Shell where
  | bash | elvish | fish | powershell | zsh
deriving DecidableEq, Repr

/-- The name of a shell. -/
def Shell.name : Shell → String
  | .bash => "bash"
  | .elvish => "elvish"
  | .fish => "fish"
  | .powershell => "powershell"
  | .zsh => "zsh"

/-- All shells. -/
def Shell.all : List Shell := [.bash, .elvish, .fish, .powershell, .zsh]

/-- The document that is read if no other is named. -/
def defaultConfig : String := "tsgen.toml"

/-- How a document is to be rendered. -/
structure RenderOptions where
  config : String := defaultConfig
  /-- The file that is written, in the place of the one in the document. -/
  output : Option String := none
  /-- Whether the code is shown and not written. -/
  dryRun : Bool := false
deriving DecidableEq, Repr

/-- What can be asked for. -/
inductive Request where
  | render (options : RenderOptions)
  | check (config : String)
  | completions (shell : Shell)
  | version
  | help
deriving DecidableEq, Repr

/-- What was read of the arguments of a command. -/
structure Settings where
  verbose : Bool := false
  config : Option String := none
  output : Option String := none
  dryRun : Bool := false
  shell : Option Shell := none
deriving DecidableEq, Repr

/-- What ends the reading of arguments early. -/
inductive Stop where
  | misuse (cause : Misuse)
  | version
  | help
deriving DecidableEq, Repr

/-- The result of reading arguments. -/
abbrev Reading := Except Stop

/-- Refuses the arguments. -/
def refuse {α : Type} (cause : Misuse) : Reading α := .error (.misuse cause)

/-- Takes the value that goes with a flag. -/
def takeValue (flag : Flag) (old : Option String) (value : String) : Reading (Option String) :=
  if value.isEmpty then refuse (.emptyValue flag)
  else if old.isSome then refuse (.repeated flag)
  else .ok (some value)

/-- Takes a flag without a value. -/
def takeMark (flag : Flag) (old : Bool) : Reading Bool := if old then refuse (.repeated flag) else .ok true

/-- Takes a flag with its value, which is empty for flags that have none. -/
def Settings.take (s : Settings) (flag : Flag) (value : String) : Reading Settings :=
  match flag with
  | .help => .error .help
  | .version => .error .version
  | .verbose => (takeMark flag s.verbose).map fun v => { s with verbose := v }
  | .dryRun => (takeMark flag s.dryRun).map fun v => { s with dryRun := v }
  | .config => (takeValue flag s.config value).map fun v => { s with config := v }
  | .output => (takeValue flag s.output value).map fun v => { s with output := v }

/-- What a command takes: its flags, and perhaps the name of a shell. -/
structure Usage where
  flags : List Flag
  takesShell : Bool := false

/-- Takes flags by their letters; the last one may wait for the next argument. What follows a letter that takes
a path is the path, perhaps after an equals sign. -/
def Usage.takeLetters (u : Usage) (s : Settings) : List Char → Reading (Settings × Option Flag)
  | [] => .ok (s, none)
  | c :: rest =>
    match u.flags.find? (·.short? = some c) with
    | none => refuse (.unknown ("-" ++ String.singleton c))
    | some flag =>
      if flag.takesPath then
        match rest with
        | [] => .ok (s, some flag)
        | '=' :: value => (s.take flag (String.ofList value)).map (·, none)
        | value => (s.take flag (String.ofList value)).map (·, none)
      else do
        let s ← s.take flag ""
        takeLetters u s rest

/-- Takes a plain argument, which can only be the name of a shell. -/
def Usage.takePlain (u : Usage) (s : Settings) (text : String) : Reading Settings :=
  if !u.takesShell || s.shell.isSome then refuse (.unknown text)
  else
    match Shell.all.find? (·.name = text) with
    | some shell => .ok { s with shell }
    | none => refuse (.unknownShell text)

/-- Takes a flag by its name; it may wait for the next argument. -/
def Usage.takeLong (u : Usage) (s : Settings) (name : String) (value : Option String) :
    Reading (Settings × Option Flag) :=
  match u.flags.find? (·.long = name), value with
  | none, _ => refuse (.unknown ("--" ++ name))
  | some flag, none => if flag.takesPath then .ok (s, some flag) else (s.take flag "").map (·, none)
  | some flag, some value =>
    if flag.takesPath then (s.take flag value).map (·, none) else refuse (.unwantedValue flag)

/-- Takes the arguments of a command one after the other. A flag that waits for its path takes the next one,
which must be plain. -/
def Usage.takeAll (u : Usage) : Option Flag → Settings → List String → Reading Settings
  | none, s, [] => .ok s
  | some flag, _, [] => refuse (.missingValue flag)
  | some flag, s, arg :: rest =>
    match Word.of arg with
    | .plain value => do
      let s ← s.take flag value
      takeAll u none s rest
    | _ => refuse (.missingValue flag)
  | none, s, arg :: rest =>
    match Word.of arg with
    | .divider => rest.foldlM u.takePlain s
    | .long name value => do
      let (s, waiting) ← u.takeLong s name value
      takeAll u waiting s rest
    | .letters letters => do
      let (s, waiting) ← u.takeLetters s letters
      takeAll u waiting s rest
    | .plain text => do
      let s ← u.takePlain s text
      takeAll u none s rest

/-- The commands. -/
inductive Verb where
  | render | check | completions | help
deriving DecidableEq, Repr

/-- The name of a command. -/
def Verb.name : Verb → String
  | .render => "render"
  | .check => "check"
  | .completions => "completions"
  | .help => "help"

/-- All commands. -/
def Verb.all : List Verb := [.render, .check, .completions, .help]

/-- The command of a name. -/
def Verb.ofName? (name : String) : Option Verb := all.find? (·.name = name)

/-- Help on the program, or on the command that is named. -/
def helpOn (names : List String) : Reading Request :=
  match names with
  | [] => .ok .help
  | name :: rest =>
    match Verb.ofName? name, rest with
    | none, _ => refuse (.unknown name)
    | some _, [] => .ok .help
    | some _, more :: _ => refuse (.unknown more)

/-- What a command with its arguments asks for. -/
def Verb.request (verb : Verb) (args : List String) : Reading Request :=
  match verb with
  | .render => do
    let s ← Usage.takeAll ⟨[.config, .output, .dryRun, .verbose, .help], false⟩ none {} args
    return .render ⟨s.config.getD defaultConfig, s.output, s.dryRun⟩
  | .check => do
    let s ← Usage.takeAll ⟨[.config, .verbose, .help], false⟩ none {} args
    return .check (s.config.getD defaultConfig)
  | .completions => do
    let s ← Usage.takeAll ⟨[.verbose, .help], true⟩ none {} args
    match s.shell with
    | some shell => return .completions shell
    | none => refuse .missingShell
  | .help => helpOn args

/-- What the program takes in front of a command. -/
def programUsage : Usage := ⟨[.verbose, .version, .help], false⟩

/-- What arguments ask for, after flags of the program were taken. -/
def requestAfter : Settings → List String → Reading Request
  | _, [] => refuse .missingCommand
  | s, arg :: rest =>
    match Word.of arg with
    | .divider => refuse .missingCommand
    | .long name value => do
      let (s, _) ← programUsage.takeLong s name value
      requestAfter s rest
    | .letters letters => do
      let (s, _) ← programUsage.takeLetters s letters
      requestAfter s rest
    | .plain name =>
      match Verb.ofName? name with
      | some verb => verb.request rest
      | none => refuse (.unknown name)

/-- What arguments ask for, or what is wrong with them. -/
def Request.ofArguments (args : List String) : Except Misuse Request :=
  match requestAfter {} args with
  | .ok r => .ok r
  | .error .version => .ok .version
  | .error .help => .ok .help
  | .error (.misuse cause) => .error cause

end TypeScribe.Command
