import TypeScribe.Text.Cursor
import TypeScribe.Tree.Fault

/-!
# Where nested objects stop being readable

The ways in which a text is not a nested object, each with the number of bytes read when it was noticed, and
the errors that are told in the end: a text that ends too early, one that breaks the grammar, and one that is
well formed but does not fit.
-/

namespace TypeScribe.Json

/-- What breaks the grammar. -/
inductive Problem where
  | endInList | endInObject | endInText | endInValue
  | colonWanted | commaOrBracketWanted | commaOrBraceWanted | identWanted | valueWanted | keyWanted
  | badEscape | badNumber | numberTooLarge | controlCharacter | loneSurrogate | brokenPair
  | trailingComma | trailingCharacters | tooDeep
deriving DecidableEq, Repr

/-- A problem in words. -/
def Problem.message : Problem → String
  | .endInList => "EOF while parsing a list"
  | .endInObject => "EOF while parsing an object"
  | .endInText => "EOF while parsing a string"
  | .endInValue => "EOF while parsing a value"
  | .colonWanted => "expected `:`"
  | .commaOrBracketWanted => "expected `,` or `]`"
  | .commaOrBraceWanted => "expected `,` or `\x7d`"
  | .identWanted => "expected ident"
  | .valueWanted => "expected value"
  | .keyWanted => "key must be a string"
  | .badEscape => "invalid escape"
  | .badNumber => "invalid number"
  | .numberTooLarge => "number out of range"
  | .controlCharacter => "control character (\\u0000-\\u001F) found while parsing a string"
  | .loneSurrogate => "lone leading surrogate in hex escape"
  | .brokenPair => "unexpected end of hex escape"
  | .trailingComma => "trailing comma"
  | .trailingCharacters => "trailing characters"
  | .tooDeep => "recursion limit exceeded"

/-- Whether a problem is that the text ends. -/
def Problem.isEnd : Problem → Bool
  | .endInList | .endInObject | .endInText | .endInValue => true
  | _ => false

/-- A problem and the number of bytes read. -/
structure ReadFault where
  problem : Problem
  offset : Nat
deriving DecidableEq, Repr

/-- Kinds of errors. -/
inductive Category where
  | grammar
  | ending
  | data
deriving DecidableEq, Repr

/-- What is told about a text that cannot be decoded. -/
structure Failure where
  category : Category
  message : String
  /-- The number of bytes read. -/
  offset : Nat
deriving DecidableEq, Repr

/-- The error of a problem. -/
def ReadFault.failure (f : ReadFault) : Failure :=
  ⟨if f.problem.isEnd then .ending else .grammar, f.problem.message, f.offset⟩

end TypeScribe.Json
