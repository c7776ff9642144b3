import TypeScribe.Text.Lines
import TypeScribe.Text.Cursor

/-!
# Lines and columns

The place after some bytes of a text as a line, counted from one, and a column, the bytes since the last line
feed; and the byte that a line and column point at.
-/

namespace TypeScribe

/-- A line, counted from one, and a column in bytes. -/
structure Position where
  line : Nat
  column : Nat
deriving DecidableEq, Repr

/-- The position after a number of bytes, from a line, its first byte and the byte reached so far. -/
def positionFrom (target : Nat) : Nat → Nat → Nat → List Char → Position
  | line, lineStart, _, [] => ⟨line, target - lineStart⟩
  | line, lineStart, offset, c :: rest =>
    if target ≤ offset then ⟨line, target - lineStart⟩
    else if c = '\n' then positionFrom target (line + 1) (offset + 1) (offset + 1) rest
    else positionFrom target line lineStart (offset + c.utf8Size) rest

/-- The position after a number of bytes of a text. -/
def positionAfter (cs : List Char) (bytes : Nat) : Position := positionFrom bytes 1 0 0 cs

/-- The byte that a line and column point at: a column points at the byte before it, and column zero at the
beginning of the line. There is none outside the text, nor in line zero. -/
def byteAt (text : String) (p : Position) : Option Nat :=
  if p.line = 0 then none
  else
    let before := byteLength ((pieces text.toList).take (p.line - 1)).flatten
    let byte := before + (p.column - 1)
    if byte < text.utf8ByteSize then some byte else none

end TypeScribe
