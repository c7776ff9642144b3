import TypeScribe.Document.KeySearch
import TypeScribe.Element.Missing
import TypeScribe.Files.Error
import TypeScribe.Json.Fault
import TypeScribe.Text.Position
import TypeScribe.Toml.Decode

/-!
# What can be wrong with a document

The ways in which a document cannot be had, and how each is told: a title, a code, a word of help, and labels
that point into the text.
-/

namespace TypeScribe

/-- A text and the name under which it is talked about. -/
structure Source where
  name : String
  text : String
deriving DecidableEq, Repr

/-- A note at a stretch of a text. -/
structure Label where
  span : Span
  text : String
deriving DecidableEq, Repr

/-- Why a document cannot be had. -/
inductive DocumentError where
  /-- Its file cannot be read. -/
  | unreadable (path : String) (cause : FileError)
  /-- Its text, in tables with headers, cannot be decoded. -/
  | malformedToml (source : Source) (failure : Toml.Failure)
  /-- Its text, in nested objects, cannot be decoded. -/
  | malformedJson (source : Source) (failure : Json.Failure)
  /-- A setting is not allowed. The span is that of the setting, if it was found. -/
  | complaint (source : Source) (message : String) (span : Option Span)
  /-- A required text is missing. -/
  | invalidTree (name : String) (cause : RenderError)
deriving DecidableEq, Repr

/-- The position at which the reading of nested objects stopped. -/
def Source.stoppedAt (source : Source) (failure : Json.Failure) : Position :=
  positionAfter source.text.toList failure.offset

/-- The byte at a position, as a stretch of a text. -/
def Source.spanAt (source : Source) (position : Position) : Option Span :=
  (byteAt source.text position).map fun byte => ⟨byte, byte + 1⟩

/-- A complaint, which points at the first place of a key. -/
def Source.complaint (source : Source) (message : String) (key : Option String) : DocumentError :=
  .complaint source message (key.bind (findKey · source.text))

namespace DocumentError

/-- The error in one line. -/
def title : DocumentError → String
  | .unreadable path _ => "failed to read '" ++ path ++ "'"
  | .malformedToml .. | .malformedJson .. => "failed to parse document"
  | .complaint _ message _ => message
  | .invalidTree name _ => "invalid element tree in '" ++ name ++ "'"

/-- The code of the kind of error. -/
def code : DocumentError → Option String
  | .unreadable .. => none
  | .malformedToml .. | .malformedJson .. => some "tsgen::parse_error"
  | .complaint .. => some "tsgen::validation_error"
  | .invalidTree .. => some "tsgen::render_error"

/-- What can be done about it. -/
def help : DocumentError → Option String
  | .unreadable .. => some "check the path passed with --config"
  | .invalidTree .. => some "fill in the missing field or remove the element"
  | _ => none

/-- The text that the labels point into. -/
def source? : DocumentError → Option Source
  | .malformedToml source _ | .malformedJson source _ | .complaint source _ _ => some source
  | .unreadable .. | .invalidTree .. => none

/-- What a label says where a text cannot be decoded. -/
def parseNote : String := "parse error here"

/-- The labels, where the kind of error has any. -/
def labels : DocumentError → Option (List Label)
  | .unreadable .. | .invalidTree .. => none
  | .malformedToml _ .grammar => none
  | .malformedToml _ (.misfit _ span) => some [⟨span, parseNote⟩]
  | .malformedJson source failure =>
    some ((source.spanAt (source.stoppedAt failure)).toList.map fun span => ⟨span, parseNote⟩)
  | .complaint _ message span => some (span.toList.map fun span => ⟨span, message⟩)

end DocumentError

end TypeScribe
