/-!
# The lines of a text

A text is cut at its line feeds. A carriage return right before a line feed goes with it; any other is an
ordinary character. A line feed at the end opens no further line, so the empty text has no lines.

* `splitLines_cons`: a character that ends no line belongs to the first line of what follows.
* `pieces_flatten`: the pieces that keep their line ends are the text itself.
-/

namespace TypeScribe

/-- Puts a character in front of the first line. -/
def consLine (c : Char) : List (List Char) → List (List Char)
  | [] => [[c]]
  | line :: lines => (c :: line) :: lines

/-- Cuts at line ends, which are left out. -/
def splitLines : List Char → List (List Char)
  | [] => []
  | '\n' :: rest => [] :: splitLines rest
  | '\r' :: '\n' :: rest => [] :: splitLines rest
  | c :: rest => consLine c (splitLines rest)

/-- The lines of a text, without their line ends. -/
def lines (text : String) : List String :=
  (splitLines text.toList).map String.ofList

@[simp] theorem splitLines_newline (rest : List Char) :
    splitLines ('\n' :: rest) = [] :: splitLines rest := by
  simp [splitLines]

@[simp] theorem splitLines_return_newline (rest : List Char) :
    splitLines ('\r' :: '\n' :: rest) = [] :: splitLines rest := by
  simp [splitLines]

theorem splitLines_cons {c : Char} {rest : List Char} (hc : c ≠ '\n')
    (hr : c = '\r' → ∀ more, rest ≠ '\n' :: more) :
    splitLines (c :: rest) = consLine c (splitLines rest) := by
  rw [splitLines]
  · exact fun h => hc h
  · intro more h₁ h₂
    exact hr h₁ more h₂

/-- Cuts after every line feed, which stays with its line. -/
def pieces : List Char → List (List Char)
  | [] => []
  | c :: rest => if c = '\n' then [c] :: pieces rest else consLine c (pieces rest)

@[simp] theorem consLine_flatten (c : Char) (ls : List (List Char)) :
    (consLine c ls).flatten = c :: ls.flatten := by
  cases ls <;> simp [consLine]

theorem pieces_flatten (cs : List Char) : (pieces cs).flatten = cs := by
  induction cs with
  | nil => rfl
  | cons c rest ih =>
    by_cases h : c = '\n' <;> simp [pieces, h, ih]

end TypeScribe
