import TypeScribe.Document.Basic
import TypeScribe.Service.Decode

/-!
# Documents from trees

The table of a whole document and the table of its output settings. Every field may be left out.
-/

namespace TypeScribe

/-- The output settings. -/
def outputRecord : Record OutputSettings where
  name := "OutputConfig"
  columns := [
    .optional "path" (readOptional readPath) fun v s => { s with path := v },
    .optional "indent" readByte fun v s => { s with indent := v },
    .optional "tabs" readBool fun v s => { s with tabs := v },
    .optional "banner" (readOptional readText) fun v s => { s with banner := v }]
  blank := {}

/-- A document. -/
def documentRecord (mode : Mode) : Record Document where
  name := "Document"
  columns := [
    .optional "output" (outputRecord.read mode) fun v d => { d with output := v },
    .optional "service" (readOptional (readService mode)) fun v d => { d with service := v },
    .optional "elements" (readList (readElement mode)) fun v d => { d with elements := v }]
  blank := {}

/-- A document from a tree in one of the two forms. -/
def readDocument (format : Format) : Node → Read Document :=
  (documentRecord ⟨format, false⟩).read ⟨format, false⟩

end TypeScribe
