/-!
# Flags

The flags of the command line, and how one argument is taken apart.
-/

namespace TypeScribe.Command

/-- The flags of the program and of its commands. -/
inductive Flag where
  | verbose | help | version | config | output | dryRun
deriving DecidableEq, Repr

namespace Flag

/-- The name of a flag after two dashes. -/
def long : Flag → String
  | .verbose => "verbose"
  | .help => "help"
  | .version => "version"
  | .config => "config"
  | .output => "output"
  | .dryRun => "dry-run"

/-- The letter of a flag after one dash, if it has one. -/
def short? : Flag → Option Char
  | .verbose => some 'v'
  | .help => some 'h'
  | .version => some 'V'
  | .config => some 'c'
  | .output => some 'o'
  | .dryRun => none

/-- Whether a path goes with a flag. -/
def takesPath : Flag → Bool
  | .config | .output => true
  | _ => false

end Flag

/-- An argument, taken apart. -/
inductive Word where
  /-- Two dashes: what follows is plain. -/
  | divider
  /-- A flag by its name, and what stands after an equals sign. -/
  | long (name : String) (value : Option String)
  /-- Flags by their letters, which what goes with the last one may follow. -/
  | letters (letters : List Char)
  /-- Any other argument. -/
  | plain (text : String)
deriving DecidableEq, Repr

/-- The name of a flag and what stands after the first equals sign. -/
def splitValue (cs : List Char) : String × Option String :=
  let name := cs.takeWhile (· ≠ '=')
  match cs.drop name.length with
  | [] => (String.ofList name, none)
  | _ :: value => (String.ofList name, some (String.ofList value))

/-- Takes an argument apart. A dash by itself is plain. -/
def Word.of (arg : String) : Word :=
  match arg.toList with
  | ['-', '-'] => .divider
  | '-' :: '-' :: rest =>
    let (name, value) := splitValue rest
    .long name value
  | '-' :: c :: rest => .letters (c :: rest)
  | _ => .plain arg

/-- What is wrong with the arguments. -/
inductive Misuse where
  | unknown (arg : String)
  | missingValue (flag : Flag)
  | emptyValue (flag : Flag)
  | unwantedValue (flag : Flag)
  | repeated (flag : Flag)
  | missingCommand
  | missingShell
  | unknownShell (name : String)
deriving DecidableEq, Repr

/-- A misuse in words. -/
def Misuse.message : Misuse → String
  | .unknown arg => "unexpected argument '" ++ arg ++ "'"
  | .missingValue flag => "a value is required for '--" ++ flag.long ++ "'"
  | .emptyValue flag => "the value for '--" ++ flag.long ++ "' is empty"
  | .unwantedValue flag => "unexpected value for '--" ++ flag.long ++ "'"
  | .repeated flag => "'--" ++ flag.long ++ "' cannot be used multiple times"
  | .missingCommand => "a command is required"
  | .missingShell => "a shell is required"
  | .unknownShell name => "unknown shell '" ++ name ++ "'"

end TypeScribe.Command
