/-!
# Reading positions

A place in a text that is being read: the bytes that lie behind it and the characters that lie ahead.
-/

namespace TypeScribe

/-- The number of bytes of some characters in UTF-8. -/
def byteLength : List Char → Nat
  | [] => 0
  | c :: rest => c.utf8Size + byteLength rest

@[simp] theorem byteLength_nil : byteLength [] = 0 := rfl

@[simp] theorem byteLength_cons (c : Char) (cs : List Char) :
    byteLength (c :: cs) = c.utf8Size + byteLength cs := rfl

@[simp] theorem byteLength_append (cs ds : List Char) :
    byteLength (cs ++ ds) = byteLength cs + byteLength ds := by
  induction cs with
  | nil => rw [List.nil_append, byteLength_nil, Nat.zero_add]
  | cons c cs ih => rw [List.cons_append, byteLength_cons, byteLength_cons, ih, Nat.add_assoc]

/-- A place in a text. -/
structure Cursor where
  /-- The number of bytes behind. -/
  offset : Nat
  /-- The characters ahead. -/
  ahead : List Char

namespace Cursor

/-- The beginning of a text. -/
def start (cs : List Char) : Cursor := ⟨0, cs⟩

/-- Moves past the characters of a class. -/
def skip (p : Char → Bool) (c : Cursor) : Cursor :=
  ⟨c.offset + byteLength (c.ahead.takeWhile p), c.ahead.dropWhile p⟩

/-- Moves to a byte, or past the character that holds it. -/
def seek (target : Nat) : Nat → List Char → Cursor
  | offset, [] => ⟨offset, []⟩
  | offset, c :: rest =>
    if target ≤ offset then ⟨offset, c :: rest⟩ else seek target (offset + c.utf8Size) rest

/-- The place one byte further on, or the end of the text. -/
def peeked (c : Cursor) : Nat := if c.ahead.isEmpty then c.offset else c.offset + 1

end Cursor

end TypeScribe
