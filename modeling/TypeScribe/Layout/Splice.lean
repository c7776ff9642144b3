import TypeScribe.Text.Blank
import TypeScribe.Text.Lines
import TypeScribe.Layout.Fragment

/-!
# Verbatim texts and braces

A verbatim text is spliced between a head and a tail, each of its lines a fragment of its own, so that later
lines follow the surrounding level. A braced body stands between its header and its closing line, and an
empty one collapses onto the header line.

* `splice_length`: a spliced text has as many fragments as lines, and one if it has none.
-/

namespace TypeScribe

/-- The brace that opens a block. -/
def openBrace : String := "\x7b"

/-- The brace that closes a block. -/
def closeBrace : String := "\x7d"

/-- A line of text, or an empty line if it holds spaces only. -/
def Fragment.ofLine (text : String) : Fragment :=
  if isBlank text then .blank else .line text

/-- The lines after the first: the last one carries the tail and is always a line. -/
def spliceRest (tail : String) : List String → List Fragment
  | [] => []
  | [last] => [.line (last ++ tail)]
  | text :: next :: rest => .ofLine text :: spliceRest tail (next :: rest)

/-- A verbatim text between a head and a tail. -/
def splice (head text tail : String) : List Fragment :=
  match lines text with
  | [] => [.line (head ++ tail)]
  | [only] => [.line (head ++ only ++ tail)]
  | first :: next :: rest => .line (head ++ first) :: spliceRest tail (next :: rest)

theorem spliceRest_length (tail : String) (texts : List String) :
    (spliceRest tail texts).length = texts.length := by
  fun_induction spliceRest tail texts <;> simp_all

theorem splice_length (head text tail : String) :
    (splice head text tail).length = max 1 (lines text).length := by
  unfold splice
  split <;> rename_i h <;> simp [h, spliceRest_length]

/-- The lines of a raw text, those that hold spaces only as empty lines. -/
def rawFragments (text : String) : List Fragment :=
  (lines text).map .ofLine

/-- A header with a space after it, or nothing. -/
def headed (header : String) : String :=
  if header.isEmpty then "" else header ++ " "

/-- A body in braces. The suffix is what follows the closing brace; an empty body leaves one line. -/
def braced (header : String) (body : List Fragment) (suffix : String) : Fragment :=
  if body.isEmpty then .line (headed header ++ openBrace ++ closeBrace ++ suffix)
  else .block (headed header ++ openBrace) body (some (closeBrace ++ suffix))

end TypeScribe
