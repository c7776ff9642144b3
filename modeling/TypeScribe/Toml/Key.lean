import TypeScribe.Toml.Text
import TypeScribe.Tree.Node

/-!
# Keys in tables

A key has one or more parts with dots between them. A part is bare, made of letters, digits, dashes and
underscores, or a text on one line in quotes. Blanks may stand around the dots. There are at most 80 parts.

* `isPlain_of_isBare`: a bare part could stand in a text as it is.
-/

namespace TypeScribe.Toml

/-- Whether a character may stand in a part without quotes. -/
def isBare (c : Char) : Bool := c.isAlphanum || c = '-' || c = '_'

/-- A letter or digit lies in one of three ranges. -/
theorem range_of_isAlphanum {c : Char} (h : c.isAlphanum = true) :
    (65 ≤ c.toNat ∧ c.toNat ≤ 90 ∨ 97 ≤ c.toNat ∧ c.toNat ≤ 122) ∨ 48 ≤ c.toNat ∧ c.toNat ≤ 57 := by
  rcases Bool.or_eq_true_iff.mp h with h | h
  · rcases Bool.or_eq_true_iff.mp h with h | h
    · exact .inl (.inl (of_decide_eq_true h))
    · obtain ⟨hlow, hhigh⟩ := Bool.and_eq_true_iff.mp h
      exact .inl (.inr ⟨of_decide_eq_true hlow, of_decide_eq_true hhigh⟩)
  · obtain ⟨hlow, hhigh⟩ := Bool.and_eq_true_iff.mp h
    exact .inr ⟨of_decide_eq_true hlow, of_decide_eq_true hhigh⟩

theorem isPlain_of_isBare {c : Char} (h : isBare c = true) : isPlain c = true := by
  rw [isBare, Bool.or_eq_true, Bool.or_eq_true, decide_eq_true_eq, decide_eq_true_eq] at h
  rcases h with (h | rfl) | rfl
  · have hrange := range_of_isAlphanum h
    have : 32 ≤ c.toNat ∧ c.toNat ≠ 127 := by omega
    simp [isPlain, this.1, this.2]
  · decide
  · decide

/-- The quote that takes characters as they are. -/
def literalQuote : Char := '\x27'

/-- One part of a key. -/
def readPart (c : Cursor) : Option (Key × Cursor) := do
  let first ← c.ahead.head?
  let (name, next) ←
    if first = '"' || first = literalQuote then
      readLineText first (first = '"') c.ahead.length [] ⟨c.offset + 1, c.ahead.drop 1⟩
    else
      let name := c.ahead.takeWhile isBare
      if name.isEmpty then none else some (String.ofList name, c.skip isBare)
  return (⟨name, ⟨c.offset, next.offset⟩⟩, next)

/-- The parts of a key, the last one apart, and the place after the blanks behind it. Fuel is the number of
characters. -/
def readKeyWithin : Nat → Cursor → Option (List Key × Key × Cursor)
  | 0, _ => none
  | fuel + 1, c => do
    let (part, next) ← readPart c
    let next := skipBlanks next
    match next.ahead with
    | '.' :: rest =>
      let (path, last, next) ← readKeyWithin fuel (skipBlanks ⟨next.offset + 1, rest⟩)
      return (part :: path, last, next)
    | _ => return ([], part, next)

/-- How many parts a key may have. -/
def partLimit : Nat := 80

/-- The parts of a key, the last one apart, and the place after the blanks behind it. -/
def readKey (c : Cursor) : Option (List Key × Key × Cursor) := do
  let (path, last, next) ← readKeyWithin (c.ahead.length + 1) c
  if path.length < partLimit then some (path, last, next) else none

end TypeScribe.Toml
