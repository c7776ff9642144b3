/-!
# White space

The characters that carry no ink, as a table of ranges, and the texts made of them alone.

* `isBlank_append`: a text in two parts is blank exactly when both parts are.
-/

namespace TypeScribe

namespace Blank

/-- The ranges of code points with the property White_Space, in ascending order. -/
def ranges : List (Nat × Nat) :=
  [(0x09, 0x0D), (0x20, 0x20), (0x85, 0x85), (0xA0, 0xA0), (0x1680, 0x1680), (0x2000, 0x200A),
   (0x2028, 0x2029), (0x202F, 0x202F), (0x205F, 0x205F), (0x3000, 0x3000)]

/-- A character is a space when its code point lies in one of the ranges. -/
def isSpace (c : Char) : Bool :=
  ranges.any fun r => r.1 ≤ c.toNat && c.toNat ≤ r.2

end Blank

/-- A text is blank when it holds spaces only; the empty text is blank. -/
def isBlank (text : String) : Bool :=
  text.toList.all Blank.isSpace

@[simp] theorem isBlank_empty : isBlank "" = true := by simp [isBlank]

@[simp] theorem isBlank_append (s t : String) : isBlank (s ++ t) = (isBlank s && isBlank t) := by
  simp [isBlank]

/-- Splits off the spaces in front. -/
def splitSpaces (cs : List Char) : List Char × List Char :=
  (cs.takeWhile Blank.isSpace, cs.dropWhile Blank.isSpace)

/-- The spaces in front and the rest make up the whole. -/
theorem splitSpaces_append (cs : List Char) : (splitSpaces cs).1 ++ (splitSpaces cs).2 = cs :=
  List.takeWhile_append_dropWhile

end TypeScribe
