import TypeScribe.Layout.Indent
import TypeScribe.Layout.Fragment

/-!
# Writing code

A writer holds the text written so far and the level at which the next line stands. It adds lines, empty
lines, comments and separators, moves between levels, and writes whole fragments.

* `Writer.separator_level`: a separator leaves the level as it was.
-/

namespace TypeScribe

/-- The text so far, the level of the next line, and the unit of indentation. -/
structure Writer where
  indent : Indent
  level : Nat
  text : String
deriving Repr

namespace Writer

/-- A writer that has written nothing. -/
def start (indent : Indent) (level : Nat) : Writer := ⟨indent, level, ""⟩

/-- Adds text as it stands. -/
def add (w : Writer) (text : String) : Writer := { w with text := w.text ++ text }

/-- Adds one line at the level; an empty line text still gets its indentation. -/
def line (w : Writer) (text : String) : Writer := w.add (w.indent.lead w.level ++ text ++ "\n")

/-- Adds an empty line, without indentation. -/
def blank (w : Writer) : Writer := w.add "\n"

/-- Adds a comment line. -/
def comment (w : Writer) (text : String) : Writer := w.line ("// " ++ text)

/-- Whether the text ends in two line feeds. -/
def endsWithBlank (w : Writer) : Bool := ['\n', '\n'].isSuffixOf w.text.toList

/-- Adds an empty line between two parts: not in front of the first, and not after an empty line. -/
def separator (w : Writer) : Writer :=
  if w.text.isEmpty || w.endsWithBlank then w else w.blank

/-- Moves one level in. -/
def deeper (w : Writer) : Writer := { w with level := w.level + 1 }

/-- Moves one level out; the outermost level stays. -/
def shallower (w : Writer) : Writer := { w with level := w.level - 1 }

mutual

/-- Writes one fragment at the level. -/
def write (w : Writer) : Fragment → Writer
  | .line text => w.line text
  | .blank => w.blank
  | .comment text => w.comment text
  | .sequence items => w.writeAll items
  | .block header body close =>
    let inner := ((w.line header).deeper.writeAll body).shallower
    match close with
    | some text => inner.line text
    | none => inner

/-- Writes fragments one after the other. -/
def writeAll (w : Writer) : List Fragment → Writer
  | [] => w
  | f :: rest => (w.write f).writeAll rest

end

@[simp] theorem add_level (w : Writer) (t : String) : (w.add t).level = w.level := rfl
@[simp] theorem add_indent (w : Writer) (t : String) : (w.add t).indent = w.indent := rfl

@[simp] theorem separator_level (w : Writer) : w.separator.level = w.level := by
  unfold separator; split <;> rfl

end Writer

end TypeScribe
