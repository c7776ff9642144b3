import TypeScribe.Text.Blank
import TypeScribe.Text.Cursor
import TypeScribe.Text.Lines
import TypeScribe.Tree.Node

/-!
# Where a key stands

The place of a key is looked for line by line in the text: the first line that begins, after its spaces, with
the key in quotes or with the key and an equals sign. What the line belongs to is not looked at.
-/

namespace TypeScribe

/-- The bytes in front of a key at the beginning of a line, if it stands there. -/
def keyInLine? (key line : List Char) : Option Nat :=
  let (spaces, rest) := splitSpaces line
  if ('"' :: key ++ ['"']).isPrefixOf rest then some (byteLength spaces + 1)
  else if key.isPrefixOf rest && (splitSpaces (rest.drop key.length)).2.head? = some '=' then
    some (byteLength spaces)
  else none

/-- The first place of a key in some lines, of which the first begins at a byte. -/
def findKeyFrom (key : List Char) : Nat → List (List Char) → Option Span
  | _, [] => none
  | offset, line :: rest =>
    match keyInLine? key line with
    | some before => some ⟨offset + before, offset + before + byteLength key⟩
    | none => findKeyFrom key (offset + byteLength line) rest

/-- The first place of a key in a text. -/
def findKey (key text : String) : Option Span := findKeyFrom key.toList 0 (pieces text.toList)

end TypeScribe
