import TypeScribe.Document.Parse
import TypeScribe.Files.Tree

/-!
# Documents in files

A file is read as a text, and the extension of its path tells the form.
-/

namespace TypeScribe

/-- A document with the file it was read from. -/
structure DocumentFile where
  path : String
  content : String
  document : Document

namespace DocumentFile

/-- The document in a file, given what reading the file came to. -/
def ofContent (path : String) (content : Except FileError String) : Except DocumentError DocumentFile := do
  let content ← content.mapError (.unreadable path)
  let document ← Document.parse ⟨path, content⟩ (Format.ofPath path)
  return { path, content, document }

/-- The document in a file. -/
def load (t : FileTree) (path : String) : Except DocumentError DocumentFile :=
  ofContent path (t.readText path)

end DocumentFile

/-- The document in a file, by itself. -/
def Document.load (t : FileTree) (path : String) : Except DocumentError Document :=
  (DocumentFile.load t path).map DocumentFile.document

end TypeScribe
