import TypeScribe.File
import TypeScribe.Service.Compose

/-!
# Documents

A document says what a file of code holds and how it is written: output settings, a service whose declarations
come first, and elements of its own.
-/

namespace TypeScribe

/-- Where and how the code is written. -/
structure OutputSettings where
  path : Option String := none
  /-- Spaces for each level. -/
  indent : UInt8 := 2
  /-- Whether each level is a tab instead. -/
  tabs : Bool := false
  banner : Option String := none
deriving DecidableEq, Repr

namespace OutputSettings

/-- The indentation of the code. -/
def indentation (s : OutputSettings) : Indent :=
  if s.tabs then .tab else .spaces s.indent.toNat

/-- The greatest number of spaces that is allowed for a level. -/
def maxIndent : UInt8 := 8

/-- Whether the number of spaces is allowed. It is looked at even where tabs are written. -/
def hasValidIndent (s : OutputSettings) : Bool := 1 ≤ s.indent && s.indent ≤ maxIndent

end OutputSettings

/-- What a file of code is made from. -/
structure Document where
  output : OutputSettings := {}
  service : Option ServiceModel := none
  elements : List Element := []

namespace Document

/-- The declarations of the service, if there is one. -/
def serviceElements (d : Document) : List Element :=
  match d.service with
  | none => []
  | some m => m.elements

/-- All elements in the order in which they are written. -/
def allElements (d : Document) : List Element := d.serviceElements ++ d.elements

/-- The file that a document describes. -/
def codeFile (d : Document) : CodeFile := ⟨d.output.banner, d.allElements⟩

/-- The code of a document. -/
def render (d : Document) : Except RenderError String := d.codeFile.renderWith d.output.indentation

end Document

end TypeScribe
