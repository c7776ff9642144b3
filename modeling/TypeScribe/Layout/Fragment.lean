/-!
# Fragments of code

Code before it is laid out: lines, blank lines and comments, gathered in sequences and in blocks whose body
stands one level deeper.

* `endsWithBlank_append`: of two lists, the later one decides unless it is empty.
-/

namespace TypeScribe

/-- A piece of code that does not know its level yet. -/
inductive Fragment where
  /-- One line of text. -/
  | line (text : String)
  /-- An empty line. -/
  | blank
  /-- A header, a body one level deeper, and a closing line if there is one. -/
  | block (header : String) (body : List Fragment) (close : Option String)
  /-- Fragments one after the other. -/
  | sequence (items : List Fragment)
  /-- A line comment. -/
  | comment (text : String)
deriving Repr

mutual

/-- Whether the last thing a fragment writes is an empty line. -/
def Fragment.endsWithBlank : Fragment → Bool
  | .line _ => false
  | .blank => true
  | .block _ body none => endsWithBlank body
  | .block _ _ (some _) => false
  | .sequence items => endsWithBlank items
  | .comment _ => false

/-- Whether the last fragment of a list ends on an empty line. -/
def endsWithBlank : List Fragment → Bool
  | [] => false
  | [f] => f.endsWithBlank
  | _ :: f :: rest => endsWithBlank (f :: rest)

end

@[simp] theorem endsWithBlank_singleton (f : Fragment) : endsWithBlank [f] = f.endsWithBlank := by
  simp [endsWithBlank]

theorem endsWithBlank_append (fs gs : List Fragment) (h : gs ≠ []) :
    endsWithBlank (fs ++ gs) = endsWithBlank gs := by
  induction fs with
  | nil => rfl
  | cons f fs ih =>
    cases fs with
    | nil =>
      cases gs with
      | nil => exact absurd rfl h
      | cons g gs => simp [endsWithBlank]
    | cons f' fs => simpa [endsWithBlank] using ih

end TypeScribe
