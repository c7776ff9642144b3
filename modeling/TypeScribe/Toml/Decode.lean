import TypeScribe.Toml.Reader
import TypeScribe.Tree.Scalar

/-!
# Decoding tables with headers

A text that breaks the grammar anywhere is refused as a whole. Otherwise its tree is decoded, and a misfit is
told with the stretch of the text it was noticed at.

* `decode_of_parse`: a text is decoded by decoding its tree.
-/

namespace TypeScribe

/-- The stretch of the text that a place is in. -/
def Place.span : Place → Span
  | .scalar s | .before s | .entered s | .key s | .ending s | .element s => s

namespace Toml

/-- Why a text cannot be decoded. -/
inductive Failure where
  /-- It breaks the grammar. -/
  | grammar
  /-- Something in it does not fit. -/
  | misfit (cause : Misfit) (span : Span)
deriving DecidableEq, Repr

/-- What is told about a fault in a tree that was read whole. -/
def failureOf : Fault → Failure
  | .misfit cause place => .misfit cause place.span
  | _ => .grammar

/-- Decodes a text. -/
def decode {α : Type} (read : Node → Read α) (text : String) : Except Failure α :=
  match parse text.toList with
  | none => .error .grammar
  | some root => (read root).mapError failureOf

theorem decode_of_parse {α : Type} {read : Node → Read α} {text : String} {root : Node}
    (h : parse text.toList = some root) : decode read text = (read root).mapError failureOf := by
  simp [decode, h]

end Toml

end TypeScribe
