import TypeScribe.Layout.Writer
import TypeScribe.Element.Layout
import TypeScribe.Element.Missing

/-!
# Code files

A file is a list of elements at the top level under an optional banner comment. The whole tree is checked
before anything is written.

* `CodeFile.render_eq`: a file renders to its text exactly when it is valid.
-/

namespace TypeScribe

/-- Elements at the top level, and the text of a comment in front of them. -/
structure CodeFile where
  banner : Option String := none
  elements : List Element := []

/-- Checks elements in order, each at its place under a name and its number. -/
def validateFrom (place : String) (index : Nat) : List Element → Except RenderError Unit
  | [] => .ok ()
  | e :: rest =>
    match e.validate (place ++ "[" ++ toString index ++ "]") with
    | .error err => .error err
    | .ok () => validateFrom place (index + 1) rest

namespace CodeFile

/-- The place of the elements of a file. -/
def place : String := "elements"

/-- Checks every element of a file. -/
def validate (f : CodeFile) : Except RenderError Unit :=
  validateFrom place 0 f.elements

/-- The comment lines of a banner. -/
def bannerFragments : Option String → List Fragment
  | none => []
  | some text => (lines text).map .comment

/-- Writes an element at the top level, set off from what stands before it. -/
def writeElement (w : Writer) (e : Element) : Writer :=
  w.separator.writeAll (e.fragments true)

/-- The text of a file whose lines start at a level, whether or not it is valid. -/
def text (f : CodeFile) (indent : Indent) (level : Nat) : String :=
  (f.elements.foldl writeElement ((Writer.start indent level).writeAll (bannerFragments f.banner))).text

/-- The text of a valid file whose lines start at a level. -/
def renderAt (f : CodeFile) (indent : Indent) (level : Nat) : Except RenderError String :=
  match f.validate with
  | .error err => .error err
  | .ok () => .ok (f.text indent level)

/-- The text of a valid file with some indentation. -/
def renderWith (f : CodeFile) (indent : Indent) : Except RenderError String := f.renderAt indent 0

/-- The text of a valid file with the standard indentation. -/
def render (f : CodeFile) : Except RenderError String := f.renderWith .standard

/-- Elements without a banner. -/
def ofElements (elements : List Element) : CodeFile := { elements }

theorem render_eq (f : CodeFile) (indent : Indent) (level : Nat) :
    f.renderAt indent level = f.validate.map fun _ => f.text indent level := by
  unfold renderAt
  split <;> simp_all [Except.map]

end CodeFile

/-- The code of a list of elements with the standard indentation. -/
def codeOf (elements : List Element) : Except RenderError String :=
  (CodeFile.ofElements elements).render

end TypeScribe
